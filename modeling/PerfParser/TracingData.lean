import PerfParser.Decode
import PerfParser.Lib.Text
/-!
# TracingData — the tracing data of a stream (`perftracingdata.cpp`)

Tracing data are sections of a binary blob; the formats of the trace events in it are text.  A format is read line by
line: what comes before the fields, the fields all events have, the fields of the event, and the rest.
-/
namespace PerfParser

open QDataStream Text

/-! ## Numbers in text -/

namespace QByteArray

/-- The text behind white space, as `strtoull` sees it, and whether a minus is in front of it. -/
def signed (s : QByteArray) : Bool × QByteArray :=
  let s := s.dropWhile isSpace
  if s.head? = some 45 then (true, s.tail) else (false, if s.head? = some 43 then s.tail else s)

/-- What `strtoull` reads with base 0: the base is in front of the number. -/
def naturalOfAnyBase (s : QByteArray) : Option Nat :=
  if s.take 2 = ofString "0x" ∨ s.take 2 = ofString "0X" then natural? 16 (s.drop 2)
  else if s.head? = some 48 then natural? 8 s
  else natural? 10 s

/-- A conversion that fails yields zero; a minus is one. -/
def unsignedBelow (bound : Nat) (parse : QByteArray → Option Nat) (s : QByteArray) : Nat :=
  let (negative, s) := s.signed
  if negative then 0 else
    match parse s with
    | some n => if n < bound then n else 0
    | none => 0

def toUInt (s : QByteArray) : UInt32 := UInt32.ofNat (s.unsignedBelow (2 ^ 32) (natural? 10))

/-- `toULongLong(nullptr, 0)`. -/
def toULongLong (s : QByteArray) : UInt64 := UInt64.ofNat (s.unsignedBelow (2 ^ 64) naturalOfAnyBase)

def toInt (s : QByteArray) : Int32 :=
  let (negative, s) := s.signed
  match natural? 10 s with
  | some n =>
    if negative then (if n ≤ 2 ^ 31 then Int32.ofInt (-n) else 0) else if n < 2 ^ 31 then Int32.ofInt n else 0
  | none => 0

/-! `toFloat() >= 0.6f` reads a decimal number, which is rounded to a double and then to a float. -/

/-- A decimal number without its sign: the digits, and the exponent of 10. -/
structure Decimal where
  digits : Nat
  exponent : Int
deriving DecidableEq, Repr

def isDigit (c : UInt8) : Bool := 48 ≤ c && c ≤ 57

/-- The exponent behind the digits, none being 0. -/
def exponent? (s : QByteArray) : Option Int :=
  match s with
  | [] => some 0
  | c :: s =>
    if c = 101 ∨ c = 69 then
      if s.head? = some 45 then (natural? 10 s.tail).map (fun n => -(n : Int))
      else (natural? 10 (if s.head? = some 43 then s.tail else s)).map Int.ofNat
    else none

def decimal? (s : QByteArray) : Option Decimal :=
  let whole := s.takeWhile isDigit
  let s := s.dropWhile isDigit
  let fraction := if s.head? = some 46 then s.tail.takeWhile isDigit else []
  let s := if s.head? = some 46 then s.tail.dropWhile isDigit else s
  match natural? 10 (whole ++ fraction), exponent? s with
  | some digits, some exponent => some { digits, exponent := exponent - fraction.length }
  | _, _ => none

/-- Whether the number is at least `numerator / 2^54`. -/
def Decimal.atLeast (d : Decimal) (numerator : Nat) : Bool :=
  numerator * 10 ^ (-d.exponent).toNat ≤ d.digits * 10 ^ d.exponent.toNat * 2 ^ 54

/-- `toFloat() >= 0.6f`: 0.6f is 10066330 / 2^24, and what is half a step below it is rounded to it, of the floats and of
the doubles. -/
def toFloatAtLeast06 (s : QByteArray) : Bool :=
  let (negative, s) := QByteArray.signed (trimmed s)
  !negative && (s = ofString "inf" ||
    match decimal? s with
    | some d => d.atLeast (20132659 * 2 ^ 29 - 1)
    | none => false)

end QByteArray

/-! ## Lines -/

/-- A semicolon at the end is dropped. -/
def chopSemicolon (value : QByteArray) : QByteArray := if value.getLast? = some 59 then value.dropLast else value

/-- A chunk of a line is a name and a value, or nothing. -/
def processChunk {σ : Type} (handler : QByteArray → QByteArray → σ → σ) (chunk : QByteArray) (s : σ) : σ :=
  match chunk.splitOn 58 with
  | [name, value] => handler (toLower name) (chopSemicolon (trimmed value)) s
  | _ => s

def processLine {σ : Type} (handler : QByteArray → QByteArray → σ → σ) (line : QByteArray) (s : σ) : σ :=
  (line.splitOn 9).foldl (fun s chunk => processChunk handler chunk s) s

namespace FormatField

def FIELD_IS_ARRAY : UInt32 := (1 : UInt32) <<< 0
def FIELD_IS_POINTER : UInt32 := (1 : UInt32) <<< 1
def FIELD_IS_SIGNED : UInt32 := (1 : UInt32) <<< 2
def FIELD_IS_STRING : UInt32 := (1 : UInt32) <<< 3
def FIELD_IS_DYNAMIC : UInt32 := (1 : UInt32) <<< 4
def FIELD_IS_LONG : UInt32 := (1 : UInt32) <<< 5

def has (field : FormatField) (flag : UInt32) : Bool := field.flags &&& flag != 0

def setFlag (flag : UInt32) (field : FormatField) : FormatField := { field with flags := field.flags ||| flag }

/-- A star before the name is that of a pointer. -/
def readPointer (fieldName : QByteArray) (field : FormatField) : QByteArray × FormatField :=
  if fieldName.head? = some 42 then (fieldName.tail, field.setFlag FIELD_IS_POINTER) else (fieldName, field)

/-- The length of an array stands in brackets behind the name; it is looked for from the end. -/
def readArrayLength (fieldName : QByteArray) (field : FormatField) : QByteArray × FormatField :=
  if fieldName.getLast? = some 93 ∧ 91 ∈ fieldName then
    let length : QByteArray := (fieldName.dropLast.reverse.takeWhile (· ≠ 91)).reverse
    (((fieldName.reverse.dropWhile (· ≠ 91)).drop 1).reverse,
      { field.setFlag FIELD_IS_ARRAY with arraylen := length.toUInt })
  else (fieldName, field)

/-- The declaration of the field: its type and its name. -/
def readDeclaration (value : QByteArray) (field : FormatField) : FormatField :=
  let fieldSegments := (trimmed value).splitOn 32
  let (fieldName, field) := readPointer (fieldSegments.getLast?.getD []) field
  let (fieldName, field) := readArrayLength fieldName field
  let fieldSegments := fieldSegments.dropLast
  let (fieldSegments, field) :=
    if fieldSegments.getLast? = some (QByteArray.ofString "[]") then
      (fieldSegments.dropLast, field.setFlag FIELD_IS_ARRAY)
    else (fieldSegments, field)
  { field with name := fieldName, type := [32].intercalate fieldSegments }

/-- The handler of `readFormatField`. -/
def handle (name value : QByteArray) (field : FormatField) : FormatField :=
  if name = QByteArray.ofString "field" then field.readDeclaration value
  else if name = QByteArray.ofString "offset" then { field with offset := value.toUInt }
  else if name = QByteArray.ofString "size" then { field with size := value.toUInt }
  else if name = QByteArray.ofString "signed" then
    if value.toInt ≠ 0 then field.setFlag FIELD_IS_SIGNED else field
  else field

def typeContains (field : FormatField) (s : String) : Bool := QByteArray.ofString s <:+: field.type

/-- The flags that follow from the type. -/
def setTypeFlags (field : FormatField) : FormatField :=
  let field :=
    if QByteArray.ofString "__data_loc" <+: field.type then field.setFlag FIELD_IS_DYNAMIC else field
  if field.typeContains "long" then field.setFlag FIELD_IS_LONG else field

/-- The size of the elements; the size of a long is that of the traced machine, or 1. -/
def setElementSize (fileLongSize : Bool) (field : FormatField) : FormatField :=
  if field.has FIELD_IS_ARRAY then
    if field.typeContains "char" || field.typeContains "u8" || field.typeContains "s8" then
      { field.setFlag FIELD_IS_STRING with elementsize := 1 }
    else if field.arraylen > 0 then { field with elementsize := field.size / field.arraylen }
    else if field.typeContains "u16" || field.typeContains "s16" then { field with elementsize := 2 }
    else if field.typeContains "u32" || field.typeContains "s32" then { field with elementsize := 4 }
    else if field.typeContains "u64" || field.typeContains "s64" then { field with elementsize := 8 }
    else if field.has FIELD_IS_LONG then { field with elementsize := if fileLongSize then 1 else 0 }
    else field
  else { field with elementsize := field.size }

/-- `PerfTracingData::readFormatField`. -/
def readFormatField (fileLongSize : Bool) (line : QByteArray) : FormatField :=
  (processLine handle line {}).setTypeFlags.setElementSize fileLongSize

end FormatField

/-! ## Formats -/

inductive FieldStage
  | BeforeFields | CommonFields | NonCommonFields | AfterFields
deriving DecidableEq, Repr

/-- The locals of the loop over the lines of a format. -/
structure FormatReading where
  stage : FieldStage := .BeforeFields
  id : Int32 := -1
  seenId : Bool := false
  event : EventFormat := {}
deriving DecidableEq, Repr

namespace EventFormat

def EVENT_FL_ISFTRACE : UInt32 := 0x01
def EVENT_FL_ISBPRINT : UInt32 := 0x04

/-- The event that a format is read into. -/
def ofSystem (system : QByteArray) : EventFormat where
  system := system
  flags := if system = QByteArray.ofString "ftrace" then EVENT_FL_ISFTRACE else 0

/-- The name of the event. -/
def setName (value : QByteArray) (event : EventFormat) : EventFormat where
  name := value
  system := event.system
  commonFields := event.commonFields
  fields := event.fields
  flags :=
    if event.flags &&& EVENT_FL_ISFTRACE ≠ 0 ∧ value = QByteArray.ofString "bprint" then
      event.flags ||| EVENT_FL_ISBPRINT
    else event.flags

end EventFormat

namespace FormatReading

/-- The handler of the lines that are no fields. -/
def handle (name value : QByteArray) (s : FormatReading) : FormatReading :=
  if name = QByteArray.ofString "name" then { s with event := s.event.setName value }
  else if name = QByteArray.ofString "id" then { s with id := value.toInt, seenId := true }
  else if name = QByteArray.ofString "format" then { s with stage := .CommonFields }
  else s

def readLine (fileLongSize : Bool) (s : FormatReading) (line : QByteArray) : FormatReading :=
  match s.stage with
  | .CommonFields =>
    if line.isEmpty then { s with stage := .NonCommonFields }
    else
      { s with event :=
        { s.event with commonFields := s.event.commonFields ++ [FormatField.readFormatField fileLongSize line] } }
  | .NonCommonFields =>
    if line.isEmpty then { s with stage := .AfterFields }
    else
      { s with event := { s.event with fields := s.event.fields ++ [FormatField.readFormatField fileLongSize line] } }
  | .BeforeFields | .AfterFields => processLine handle line s

/-- The format in a buffer. -/
def read (fileLongSize : Bool) (system buffer : QByteArray) : FormatReading :=
  (buffer.splitOn 10).foldl (readLine fileLongSize) { event := .ofSystem system }

end FormatReading

/-! ## Sections -/

def readNullTerminatedString : Reader UInt8 QByteArray := Reader.untilStop (· == 0)

def checkMagic (magic : QByteArray) : Reader UInt8 Bool := (fun read => read == magic) <$> readRawData magic.length

/-- A size that `checkSize` accepts, and the buffer behind it. -/
def readBuffer (size : Reader UInt8 Nat) : Reader UInt8 (Option QByteArray) := do
  let size ← size
  if size > intMax then pure none else some <$> readRawData size

/-- A size that `checkSize` accepts, and as much passed over. -/
def skipBuffer (size : Reader UInt8 Nat) : Reader UInt8 Bool := do
  let size ← size
  if size > intMax then pure false else (fun _ => true) <$> skipRawData size

namespace PerfTracingData

variable (bigEndian : Bool)

def size32 : Reader UInt8 Nat := UInt32.toNat <$> u32 bigEndian

def size64 : Reader UInt8 Nat := UInt64.toNat <$> u64 bigEndian

/-- What a reader makes of the tracing data, and whether it goes on. -/
abbrev Step := PerfTracingData → Reader UInt8 (Bool × PerfTracingData)

def readMagic (magic : QByteArray) : Step := fun t => (fun ok => (ok, t)) <$> checkMagic magic

/-- A section whose buffer is read. -/
def readSection (size : Reader UInt8 Nat) (f : PerfTracingData → QByteArray → PerfTracingData) : Step := fun t =>
  (fun buffer => match buffer with | some buffer => (true, f t buffer) | none => (false, t)) <$> readBuffer size

/-- A section that nothing is read of. -/
def skipSection (size : Reader UInt8 Nat) : Step := fun t => (fun ok => (ok, t)) <$> skipBuffer size

def addHeaderFields (t : PerfTracingData) (buffer : QByteArray) : PerfTracingData :=
  (buffer.splitOn 10).foldl (fun t line =>
    if line.isEmpty then t
    else { t with headerFields := t.headerFields ++ [FormatField.readFormatField t.fileLongSize line] }) t

def readHeaderFiles : Step := Reader.steps
  [readMagic (QByteArray.ofString "header_page" ++ [0]), readSection (size64 bigEndian) addHeaderFields,
    readMagic (QByteArray.ofString "header_event" ++ [0]), skipSection (size64 bigEndian)]

/-- One format of `readEventFormats`. -/
def readEventFormat (system : QByteArray) : Step := fun t => do
  let buffer ← readBuffer (size64 bigEndian)
  match buffer with
  | none => pure (false, t)
  | some buffer =>
    let s := FormatReading.read t.fileLongSize system buffer
    if s.seenId then pure (true, { t with eventFormats := t.eventFormats.insert s.id s.event }) else pure (false, t)

/-- As often as a count says; not at all where it is negative. -/
def readCounted (f : Step) : Step := fun t => do
  let count ← i32 bigEndian
  Reader.steps (List.replicate count.toInt.toNat f) t

def readEventFormats (system : QByteArray) : Step := readCounted bigEndian (readEventFormat bigEndian system)

def readEventFiles : Step := readCounted bigEndian (fun t => do
  let system ← readNullTerminatedString
  readEventFormats bigEndian system t)

def readProcKallsyms : Step := skipSection (size32 bigEndian)

/-- A line of the printk table; the quotes around the text are dropped. -/
def addPrintk (t : PerfTracingData) (line : QByteArray) : PerfTracingData :=
  if line.isEmpty then t else
    match line.splitOn 58 with
    | [address, value] =>
      { t with ftracePrintk :=
        t.ftracePrintk.insert (QByteArray.toULongLong (trimmed address)) (trimmed value).tail.dropLast }
    | _ => t

def readFtracePrintk : Step :=
  readSection (size32 bigEndian) (fun t buffer => (buffer.splitOn 10).foldl addPrintk t)

/-- Each line is prefixed with the pid it refers to. -/
def readSavedCmdline : Step := readSection (size64 bigEndian) (fun t buffer =>
  { t with savedCmdlines := t.savedCmdlines ++ (buffer.splitOn 10).filter (fun line => !line.isEmpty) })

/-- The sections, in the byte order of the blob. -/
def readSections (version : QByteArray) : Step := Reader.steps
  ([readHeaderFiles bigEndian, readEventFormats bigEndian (QByteArray.ofString "ftrace"), readEventFiles bigEndian,
      readProcKallsyms bigEndian, readFtracePrintk bigEndian]
    ++ if version.toFloatAtLeast06 then [readSavedCmdline bigEndian] else [])

def tracingMagic : QByteArray := [0x17, 0x08, 0x44] ++ QByteArray.ofString "tracing"

/-- What stands before the sections. -/
def readPreamble (t : PerfTracingData) : Reader UInt8 PerfTracingData := do
  let version ← readNullTerminatedString
  let bigEndian ← Reader.number false 1
  let fileLongSize ← Reader.number false 1
  let filePageSize ← i32 (bigEndian != 0)
  pure { t with version, bigEndian := bigEndian != 0, fileLongSize := fileLongSize != 0, filePageSize }

/-- `operator>>` behind the size check, on the blob in memory. -/
def read (t : PerfTracingData) : Reader UInt8 PerfTracingData := do
  let ok ← checkMagic tracingMagic
  if ok then do
    let t ← readPreamble t
    Prod.snd <$> readSections t.bigEndian t.version t
  else pure t

/-- The tracing data that a blob is read into; where a section fails, what was read before it. -/
def parse (t : PerfTracingData) (blob : QByteArray) : PerfTracingData := ((read t).run blob).1

end PerfTracingData

end PerfParser
