import PerfParser.Records
import PerfParser.Lib.Reader
/-!
# Decode — the `operator>>` of headers, attributes and records (`perfdata.cpp`, `perfattributes.cpp`)

A `QDataStream` in either byte order is a reader of bytes.  A number the stream ends before is zero, a buffer it ends
before stays zero behind what it has, and memory the source leaves uninitialised is zero too.  The host is
little-endian.
-/
namespace PerfParser

open PerfEventAttributes

namespace QDataStream

variable (bigEndian : Bool)

def u16 : Reader UInt8 UInt16 := UInt16.ofNat <$> Reader.number bigEndian 2

def u32 : Reader UInt8 UInt32 := UInt32.ofNat <$> Reader.number bigEndian 4

def u64 : Reader UInt8 UInt64 := UInt64.ofNat <$> Reader.number bigEndian 8

def i32 : Reader UInt8 Int32 := UInt32.toInt32 <$> u32 bigEndian

/-- `QDataStream::readRawData` into a buffer of that length. -/
def readRawData (length : Nat) : Reader UInt8 QByteArray := Reader.raw 0 length

/-- `QDataStream::skipRawData`, which does nothing for a negative length. -/
def skipRawData (length : Int) : Reader UInt8 Unit := Reader.skip length.toNat

theorem takes_u16 : Reader.Takes (u16 bigEndian) 2 := (Reader.Takes.number bigEndian 2).map _

theorem takes_u32 : Reader.Takes (u32 bigEndian) 4 := (Reader.Takes.number bigEndian 4).map _

theorem takes_u64 : Reader.Takes (u64 bigEndian) 8 := (Reader.Takes.number bigEndian 8).map _

theorem takes_i32 : Reader.Takes (i32 bigEndian) 4 := (takes_u32 bigEndian).map _

theorem takes_readRawData (length : Nat) : Reader.Takes (readRawData length) length := (Reader.Takes.take length).map _

theorem takes_skipRawData (length : Nat) : Reader.Takes (skipRawData length) length := (Reader.Takes.take length).map _

end QDataStream

open QDataStream

/-- `std::numeric_limits<int>::max()`. -/
def intMax : Nat := 0x7FFFFFFF

variable (bigEndian : Bool)

def PerfEventHeader.read : Reader UInt8 PerfEventHeader := do
  let type ← u32 bigEndian
  let misc ← u16 bigEndian
  let size ← u16 bigEndian
  pure { type, misc, size }

/-! ## Sample ids -/

namespace PerfSampleId

def create (sampleType : UInt64) (sampleIdAll : Bool) : PerfSampleId where
  sampleType := sampleType ||| (if sampleIdAll then SAMPLE_ID_ALL else 0)

def has (s : PerfSampleId) (bit : UInt64) : Bool := s.sampleType &&& bit != 0

def readTid (s : PerfSampleId) : Reader UInt8 PerfSampleId := do
  let pid ← i32 bigEndian
  let tid ← i32 bigEndian
  pure { s with pid, tid }

def readTime (s : PerfSampleId) : Reader UInt8 PerfSampleId := do
  let time ← u64 bigEndian
  pure { s with time }

def readId (s : PerfSampleId) : Reader UInt8 PerfSampleId := do
  let id ← u64 bigEndian
  pure { s with id }

def readStreamId (s : PerfSampleId) : Reader UInt8 PerfSampleId := do
  let streamId ← u64 bigEndian
  pure { s with streamId }

def readCpu (s : PerfSampleId) : Reader UInt8 PerfSampleId := do
  let cpu ← u32 bigEndian
  let res ← u32 bigEndian
  pure { s with cpu, res }

/-- `m_ignoredDuplicateId`. -/
def skipDuplicateId (s : PerfSampleId) : Reader UInt8 PerfSampleId := do
  skipRawData 8
  pure s

/-- `operator>>` for the sample id behind a record other than a sample. -/
def read (s : PerfSampleId) : Reader UInt8 PerfSampleId :=
  let has := s.has
  Reader.when (has SAMPLE_ID_ALL) (fun s => do
    let s ← Reader.when (has SAMPLE_TID) (readTid bigEndian) s
    let s ← Reader.when (has SAMPLE_TIME) (readTime bigEndian) s
    let s ← Reader.when (has SAMPLE_ID) (readId bigEndian) s
    let s ← Reader.when (has SAMPLE_STREAM_ID) (readStreamId bigEndian) s
    let s ← Reader.when (has SAMPLE_CPU) (readCpu bigEndian) s
    Reader.when (has SAMPLE_IDENTIFIER) skipDuplicateId s) s

def fixedLength (s : PerfSampleId) : UInt16 :=
  if s.has SAMPLE_ID_ALL then
    (if s.has SAMPLE_TID then 4 + 4 else 0)
      + (if s.has SAMPLE_TIME then 8 else 0)
      + (if s.has SAMPLE_ID then 8 else 0)
      + (if s.has SAMPLE_STREAM_ID then 8 else 0)
      + (if s.has SAMPLE_CPU then 4 + 4 else 0)
      + (if s.has SAMPLE_IDENTIFIER then 8 else 0)
  else 0

end PerfSampleId

namespace PerfRecord

def create (header : PerfEventHeader) (sampleType : UInt64) (sampleIdAll : Bool) : PerfRecord where
  header := header
  sampleId := PerfSampleId.create sampleType sampleIdAll

def fixedLength (r : PerfRecord) : UInt16 := PerfEventHeader.fixedLength + r.sampleId.fixedLength

end PerfRecord

/-- The bytes up to the first NUL, where there is one. -/
def truncateAtNull (bytes : QByteArray) : QByteArray := bytes.takeWhile (· ≠ 0)

/-! ## Records other than samples -/

namespace PerfRecordMmap

def create (header : PerfEventHeader) (sampleType : UInt64) (sampleIdAll : Bool) : PerfRecordMmap where
  toPerfRecord := PerfRecord.create header sampleType sampleIdAll

def readNumbers (r : PerfRecordMmap) : Reader UInt8 PerfRecordMmap := do
  let pid ← i32 bigEndian
  let tid ← i32 bigEndian
  let addr ← u64 bigEndian
  let len ← u64 bigEndian
  let pgoff ← u64 bigEndian
  pure { r with pid, tid, addr, len, pgoff }

def readFilename (filenameLength : UInt16) (r : PerfRecordMmap) : Reader UInt8 PerfRecordMmap := do
  let filename ← readRawData filenameLength.toNat
  pure { r with filename := truncateAtNull filename }

def readSampleId (r : PerfRecordMmap) : Reader UInt8 PerfRecordMmap := do
  let sampleId ← r.sampleId.read bigEndian
  pure { r with sampleId }

def fixedLength (r : PerfRecordMmap) : UInt16 :=
  4 + 4 + 8 + 8 + 8 + PerfEventHeader.fixedLength + r.sampleId.fixedLength

def read (r : PerfRecordMmap) : Reader UInt8 PerfRecordMmap := do
  let r ← r.readNumbers bigEndian
  let r ← r.readFilename (r.header.size - r.fixedLength)
  r.readSampleId bigEndian

end PerfRecordMmap

/-- The numbers of a `PerfRecordMmap2` that the unwinder does not get. -/
structure PerfRecordMmap2 extends PerfRecordMmap where
  maj : UInt32 := 0
  min : UInt32 := 0
  ino : UInt64 := 0
  inoGeneration : UInt64 := 0
  prot : UInt32 := 0
  flags : UInt32 := 0
deriving DecidableEq, Repr, Inhabited

namespace PerfRecordMmap2

def create (header : PerfEventHeader) (sampleType : UInt64) (sampleIdAll : Bool) : PerfRecordMmap2 where
  toPerfRecordMmap := PerfRecordMmap.create header sampleType sampleIdAll

def readNumbers (r : PerfRecordMmap2) : Reader UInt8 PerfRecordMmap2 := do
  let mmap ← r.toPerfRecordMmap.readNumbers bigEndian
  let maj ← u32 bigEndian
  let min ← u32 bigEndian
  let ino ← u64 bigEndian
  let inoGeneration ← u64 bigEndian
  let prot ← u32 bigEndian
  let flags ← u32 bigEndian
  pure { r with toPerfRecordMmap := mmap, maj, min, ino, inoGeneration, prot, flags }

def fixedLength (r : PerfRecordMmap2) : UInt16 := r.toPerfRecordMmap.fixedLength + 4 + 4 + 8 + 8 + 4 + 4

def read (r : PerfRecordMmap2) : Reader UInt8 PerfRecordMmap2 := do
  let r ← r.readNumbers bigEndian
  let mmap ← r.toPerfRecordMmap.readFilename (r.header.size - r.fixedLength)
  let mmap ← mmap.readSampleId bigEndian
  pure { r with toPerfRecordMmap := mmap }

end PerfRecordMmap2

namespace PerfRecordComm

def create (header : PerfEventHeader) (sampleType : UInt64) (sampleIdAll : Bool) : PerfRecordComm where
  toPerfRecord := PerfRecord.create header sampleType sampleIdAll

def fixedLength (r : PerfRecordComm) : UInt16 := r.toPerfRecord.fixedLength + 4 + 4

def read (r : PerfRecordComm) : Reader UInt8 PerfRecordComm := do
  let pid ← i32 bigEndian
  let tid ← i32 bigEndian
  let comm ← readRawData (r.header.size - r.fixedLength).toNat
  let sampleId ← r.sampleId.read bigEndian
  pure { r with pid, tid, comm := truncateAtNull comm, sampleId }

end PerfRecordComm

namespace PerfRecordLost

def create (header : PerfEventHeader) (sampleType : UInt64) (sampleIdAll : Bool) : PerfRecordLost where
  toPerfRecord := PerfRecord.create header sampleType sampleIdAll

def read (r : PerfRecordLost) : Reader UInt8 PerfRecordLost := do
  let id ← u64 bigEndian
  let lost ← u64 bigEndian
  let sampleId ← r.sampleId.read bigEndian
  pure { r with id, lost, sampleId }

end PerfRecordLost

namespace PerfRecordFork

def create (header : PerfEventHeader) (sampleType : UInt64) (sampleIdAll : Bool) : PerfRecordFork where
  toPerfRecord := PerfRecord.create header sampleType sampleIdAll

def read (r : PerfRecordFork) : Reader UInt8 PerfRecordFork := do
  let childPid ← i32 bigEndian
  let parentPid ← i32 bigEndian
  let childTid ← i32 bigEndian
  let parentTid ← i32 bigEndian
  let ownTime ← u64 bigEndian
  let sampleId ← r.sampleId.read bigEndian
  pure { r with childPid, parentPid, childTid, parentTid, ownTime, sampleId }

end PerfRecordFork

namespace PerfRecordContextSwitch

def create (header : PerfEventHeader) (sampleType : UInt64) (sampleIdAll : Bool) : PerfRecordContextSwitch where
  toPerfRecord := PerfRecord.create header sampleType sampleIdAll

def read (r : PerfRecordContextSwitch) : Reader UInt8 PerfRecordContextSwitch := do
  let sampleId ← r.sampleId.read bigEndian
  pure { r with sampleId }

/-- `operator>>` of `PerfRecordContextSwitchCpuWide`. -/
def readCpuWide (r : PerfRecordContextSwitch) : Reader UInt8 PerfRecordContextSwitch := do
  let nextPrevPid ← i32 bigEndian
  let nextPrevTid ← i32 bigEndian
  let sampleId ← r.sampleId.read bigEndian
  pure { r with nextPrevPid, nextPrevTid, sampleId }

end PerfRecordContextSwitch

/-! ## Attributes -/

namespace PerfEventAttributes

/-- What becomes of the flags where the stream is not in the byte order of the host. -/
def swapFlags (flags : UInt64) : UInt64 :=
  (List.range 64).foldl (fun newFlags i =>
    if flags &&& ((1 : UInt64) <<< UInt64.ofNat i) != 0 then
      newFlags ||| ((1 : UInt64) <<< UInt64.ofNat (i / 8 + 7 - i % 8))
    else newFlags) 0

def readVersion0 (attrs : PerfEventAttributes) : Reader UInt8 PerfEventAttributes := do
  let config ← u64 bigEndian
  let samplePeriod ← u64 bigEndian
  let sampleType ← u64 bigEndian
  let readFormat ← u64 bigEndian
  let flags ← u64 bigEndian
  let wakeupEvents ← u32 bigEndian
  let bpType ← u32 bigEndian
  let bpAddr ← u64 bigEndian
  let flags := if bigEndian then swapFlags flags else flags
  pure { attrs with config, samplePeriod, sampleType, readFormat, flags, wakeupEvents, bpType, bpAddr }

def readVersion1 (attrs : PerfEventAttributes) : Reader UInt8 PerfEventAttributes := do
  let bpLen ← u64 bigEndian
  pure { attrs with bpLen }

def readVersion2 (attrs : PerfEventAttributes) : Reader UInt8 PerfEventAttributes := do
  let branchSampleType ← u64 bigEndian
  pure { attrs with branchSampleType }

def readVersion3 (attrs : PerfEventAttributes) : Reader UInt8 PerfEventAttributes := do
  let sampleRegsUser ← u64 bigEndian
  let sampleStackUser ← u32 bigEndian
  let clockid ← i32 bigEndian
  pure { attrs with sampleRegsUser, sampleStackUser, clockid }

def readVersion4 (attrs : PerfEventAttributes) : Reader UInt8 PerfEventAttributes := do
  let sampleRegsIntr ← u64 bigEndian
  pure { attrs with sampleRegsIntr }

def readVersion5 (attrs : PerfEventAttributes) : Reader UInt8 PerfEventAttributes := do
  let auxWatermark ← u32 bigEndian
  let sampleMaxStack ← u16 bigEndian
  let reserved2 ← u16 bigEndian
  pure { attrs with auxWatermark, sampleMaxStack, reserved2 }

/-- Passes over what a newer version has, in steps of at most `intMax` bytes in the source. -/
def skipNewer (attrs : PerfEventAttributes) : Reader UInt8 PerfEventAttributes := do
  skipRawData (attrs.size - SIZE_VER5).toNat
  pure attrs

def read (attrs : PerfEventAttributes) : Reader UInt8 PerfEventAttributes := do
  let type ← u32 bigEndian
  let size ← u32 bigEndian
  let attrs := { attrs with type, size }
  if size < SIZE_VER0 then pure attrs
  else
    let attrs ← attrs.readVersion0 bigEndian
    let attrs ← Reader.when (size > SIZE_VER0) (readVersion1 bigEndian) attrs
    let attrs ← Reader.when (size > SIZE_VER1) (readVersion2 bigEndian) attrs
    let attrs ← Reader.when (size > SIZE_VER2) (readVersion3 bigEndian) attrs
    let attrs ← Reader.when (size > SIZE_VER3) (readVersion4 bigEndian) attrs
    let attrs ← Reader.when (size > SIZE_VER4) (readVersion5 bigEndian) attrs
    Reader.when (size > SIZE_VER5) skipNewer attrs

end PerfEventAttributes

namespace PerfRecordAttr

def create (header : PerfEventHeader) (sampleType : UInt64) (sampleIdAll : Bool) : PerfRecordAttr where
  toPerfRecord := PerfRecord.create header sampleType sampleIdAll

def read (r : PerfRecordAttr) : Reader UInt8 PerfRecordAttr := do
  let attr ← r.attr.read bigEndian
  let ids ← (u64 bigEndian).times
    ((r.header.size.toUInt32 - (attr.size + PerfEventHeader.fixedLength.toUInt32)).toNat / 8)
  pure { r with attr, ids := r.ids ++ ids }

end PerfRecordAttr

/-! ## Samples -/

/-- `qPopulationCount`. -/
def popCount (mask : UInt64) : Nat := (List.range 64).countP (fun i => mask.toNat.testBit i)

namespace PerfRecordSample

def create (header : PerfEventHeader) (attributes : PerfEventAttributes) : PerfRecordSample where
  toPerfRecord := PerfRecord.create header attributes.sampleType false
  readFormat := attributes.readFormat
  registerMask := attributes.sampleRegsUser

/-- A section of the sample that its sample id keeps. -/
def readSampleId (f : PerfSampleId → Reader UInt8 PerfSampleId) (r : PerfRecordSample) :
    Reader UInt8 PerfRecordSample := do
  let sampleId ← f r.sampleId
  pure { r with sampleId }

def readIp (r : PerfRecordSample) : Reader UInt8 PerfRecordSample := do
  let ip ← u64 bigEndian
  pure { r with ip }

def readAddr (r : PerfRecordSample) : Reader UInt8 PerfRecordSample := do
  let addr ← u64 bigEndian
  pure { r with addr }

/-- The cpu, and what a sample has in the place of `m_res`. -/
def readCpu (r : PerfRecordSample) : Reader UInt8 PerfRecordSample := do
  let cpu ← u32 bigEndian
  let _waste32 ← u32 bigEndian
  pure { r with sampleId := { r.sampleId with cpu } }

def readPeriod (r : PerfRecordSample) : Reader UInt8 PerfRecordSample := do
  let period ← u64 bigEndian
  pure { r with period }

def readTimeEnabled (r : PerfRecordSample) : Reader UInt8 PerfRecordSample := do
  let timeEnabled ← u64 bigEndian
  pure { r with timeEnabled }

def readTimeRunning (r : PerfRecordSample) : Reader UInt8 PerfRecordSample := do
  let timeRunning ← u64 bigEndian
  pure { r with timeRunning }

/-- The id of a counter, with its number of lost samples where the format has it. -/
def readCounterId (withLostFormat : Bool) (format : ReadFormat) : Reader UInt8 ReadFormat := do
  let id ← u64 bigEndian
  Reader.when withLostFormat (fun format => do
    let lost ← u64 bigEndian
    pure { format with lost }) { format with id }

def readCounter (withLostFormat : Bool) : Reader UInt8 ReadFormat := do
  let value ← u64 bigEndian
  readCounterId bigEndian withLostFormat { value }

def readReadFormats (r : PerfRecordSample) : Reader UInt8 PerfRecordSample := do
  let group := r.readFormat &&& FORMAT_GROUP != 0
  let withLostFormat := r.readFormat &&& FORMAT_LOST != 0
  let first ← u64 bigEndian
  let r ← Reader.when (r.readFormat &&& FORMAT_TOTAL_TIME_ENABLED != 0) (readTimeEnabled bigEndian) r
  let r ← Reader.when (r.readFormat &&& FORMAT_TOTAL_TIME_RUNNING != 0) (readTimeRunning bigEndian) r
  if group then
    let formats ← (readCounter bigEndian withLostFormat).times first.toNat
    pure { r with readFormats := r.readFormats ++ formats }
  else
    let format ← readCounterId bigEndian withLostFormat { value := first }
    pure { r with readFormats := r.readFormats ++ [format] }

def readCallchain (r : PerfRecordSample) : Reader UInt8 PerfRecordSample := do
  let numIps ← u64 bigEndian
  let ips ← (u64 bigEndian).times numIps.toNat
  pure { r with callchain := r.callchain ++ ips }

def readRawSection (r : PerfRecordSample) : Reader UInt8 PerfRecordSample := do
  let rawSize ← u32 bigEndian
  if rawSize.toNat > intMax then
    skipRawData intMax
    skipRawData (rawSize - UInt32.ofNat intMax).toInt32.toInt
    pure r
  else
    let rawData ← readRawData rawSize.toNat
    pure { r with rawData }

/-- An entry of the branch stack.  Its flags are read as they stand, in the byte order of the host. -/
def readBranchEntry : Reader UInt8 BranchEntry := do
  let source ← u64 bigEndian
  let target ← u64 bigEndian
  let flags ← readRawData 8
  pure { source, target, flags := UInt64.ofNat (Reader.ofBytes flags) }

def readBranchStack (r : PerfRecordSample) : Reader UInt8 PerfRecordSample := do
  let numBranches ← u64 bigEndian
  let entries ← (readBranchEntry bigEndian).times numBranches.toNat
  pure { r with branchStack := r.branchStack ++ entries }

def readRegsUser (r : PerfRecordSample) : Reader UInt8 PerfRecordSample := do
  let registerAbi ← u64 bigEndian
  let r := { r with registerAbi }
  Reader.when (registerAbi != 0) (fun r => do
    let registers ← (u64 bigEndian).times (popCount r.registerMask)
    pure { r with registers := r.registers ++ registers }) r

def readStackUser (r : PerfRecordSample) : Reader UInt8 PerfRecordSample := do
  let sectionSize ← u64 bigEndian
  if sectionSize.toNat > intMax then
    -- in steps of at most `intMax` bytes in the source
    skipRawData sectionSize.toNat
    skipRawData 8
    pure r
  else if sectionSize > 0 then
    let userStack ← readRawData sectionSize.toNat
    let contentSize ← u64 bigEndian
    pure { r with userStack := if contentSize > sectionSize then userStack else userStack.take contentSize.toNat }
  else pure r

def readWeight (r : PerfRecordSample) : Reader UInt8 PerfRecordSample := do
  let weight ← u64 bigEndian
  pure { r with weight }

def readDataSrc (r : PerfRecordSample) : Reader UInt8 PerfRecordSample := do
  let dataSrc ← u64 bigEndian
  pure { r with dataSrc }

def readTransaction (r : PerfRecordSample) : Reader UInt8 PerfRecordSample := do
  let transaction ← u64 bigEndian
  pure { r with transaction }

def read (r : PerfRecordSample) : Reader UInt8 PerfRecordSample := do
  let has := r.sampleId.has
  let r ← Reader.when (has SAMPLE_IDENTIFIER) (readSampleId (PerfSampleId.readId bigEndian)) r
  let r ← Reader.when (has SAMPLE_IP) (readIp bigEndian) r
  let r ← Reader.when (has SAMPLE_TID) (readSampleId (PerfSampleId.readTid bigEndian)) r
  let r ← Reader.when (has SAMPLE_TIME) (readSampleId (PerfSampleId.readTime bigEndian)) r
  let r ← Reader.when (has SAMPLE_ADDR) (readAddr bigEndian) r
  let r ← Reader.when (has SAMPLE_ID) (readSampleId (PerfSampleId.readId bigEndian)) r
  let r ← Reader.when (has SAMPLE_STREAM_ID) (readSampleId (PerfSampleId.readStreamId bigEndian)) r
  let r ← Reader.when (has SAMPLE_CPU) (readCpu bigEndian) r
  let r ← Reader.when (has SAMPLE_PERIOD) (readPeriod bigEndian) r
  let r ← Reader.when (has SAMPLE_READ) (readReadFormats bigEndian) r
  let r ← Reader.when (has SAMPLE_CALLCHAIN) (readCallchain bigEndian) r
  let r ← Reader.when (has SAMPLE_RAW) (readRawSection bigEndian) r
  let r ← Reader.when (has SAMPLE_BRANCH_STACK) (readBranchStack bigEndian) r
  let r ← Reader.when (has SAMPLE_REGS_USER) (readRegsUser bigEndian) r
  let r ← Reader.when (has SAMPLE_STACK_USER) (readStackUser bigEndian) r
  let r ← Reader.when (has SAMPLE_WEIGHT) (readWeight bigEndian) r
  let r ← Reader.when (has SAMPLE_DATA_SRC) (readDataSrc bigEndian) r
  Reader.when (has SAMPLE_TRANSACTION) (readTransaction bigEndian) r

end PerfRecordSample

end PerfParser
