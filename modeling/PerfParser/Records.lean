import Mathlib.Data.List.Basic
/-!
# Records — the records a `perf.data` stream carries

The data types of `perfdata.h`, `perfattributes.h`, `perftracingdata.h` and `perffeatures.h`, with the accessors the
parser and the unwinder read.  A `QByteArray` is its list of bytes, a `QHash` the list of its insertions, latest first.
-/
namespace PerfParser

abbrev QByteArray := List UInt8

/-- The bytes of a literal. -/
def QByteArray.ofString (s : String) : QByteArray := s.toList.map (fun c => c.toNat.toUInt8)

/-- `QByteArray::number`. -/
def QByteArray.number (n base : Nat) : QByteArray := ofString (String.ofList (Nat.toDigits base n))

/-- A `QHash` as its insertions, latest first. -/
abbrev QHash (κ ν : Type) := List (κ × ν)

namespace QHash

variable {κ ν : Type} [DecidableEq κ]

/-- `QHash::find`: the value of the latest insertion under the key. -/
def find (h : QHash κ ν) (k : κ) : Option ν := h.lookup k

/-- `QHash::contains`. -/
def contains (h : QHash κ ν) (k : κ) : Bool := (h.find k).isSome

/-- `QHash::insert`, and `hash[key] = value`. -/
def insert (h : QHash κ ν) (k : κ) (v : ν) : QHash κ ν := (k, v) :: h

/-- `QHash::take` and `QHash::remove`. -/
def remove (h : QHash κ ν) (k : κ) : QHash κ ν := h.filter (fun p => p.1 ≠ k)

/-- What an iterator over the hash visits: every key once. -/
def entries : QHash κ ν → List (κ × ν)
  | [] => []
  | (k, v) :: h => (k, v) :: (entries h).filter (fun p => p.1 ≠ k)

@[simp] theorem find_nil (k : κ) : find ([] : QHash κ ν) k = none := rfl

theorem find_insert (h : QHash κ ν) (k k' : κ) (v : ν) :
    (h.insert k v).find k' = if k' = k then some v else h.find k' := by
  unfold find insert
  rw [List.lookup_cons]
  by_cases hk : k' = k
  · simp [hk]
  · rw [if_neg hk, beq_false_of_ne hk]

@[simp] theorem find_insert_self (h : QHash κ ν) (k : κ) (v : ν) : (h.insert k v).find k = some v := by
  rw [find_insert, if_pos rfl]

theorem find_insert_of_ne (h : QHash κ ν) {k k' : κ} (v : ν) (hne : k' ≠ k) : (h.insert k v).find k' = h.find k' := by
  rw [find_insert, if_neg hne]

section Foldl

variable {α : Type} (key : α → κ) (value : α → ν)

theorem find_foldl_insert_of_not_mem {k : κ} : ∀ {l : List α} (h : QHash κ ν), k ∉ l.map key →
    QHash.find (l.foldl (fun h a => h.insert (key a) (value a)) h) k = h.find k
  | [], _, _ => rfl
  | a :: l, h, hk => by
    rw [List.map_cons, List.mem_cons, not_or] at hk
    rw [List.foldl_cons, find_foldl_insert_of_not_mem _ hk.2, find_insert_of_ne h _ hk.1]

theorem find_foldl_insert : ∀ {l : List α} (h : QHash κ ν), (l.map key).Nodup → ∀ {a : α}, a ∈ l →
    QHash.find (l.foldl (fun h a => h.insert (key a) (value a)) h) (key a) = some (value a)
  | b :: l, h, hnodup, a, ha => by
    rw [List.map_cons, List.nodup_cons] at hnodup
    rw [List.foldl_cons]
    rcases List.mem_cons.1 ha with rfl | ha
    · rw [find_foldl_insert_of_not_mem key value _ hnodup.1, find_insert_self]
    · exact find_foldl_insert _ hnodup.2 ha

theorem contains_foldl_insert (k : κ) : ∀ (l : List α) (h : QHash κ ν),
    QHash.contains (l.foldl (fun h a => h.insert (key a) (value a)) h) k = (h.contains k || (l.map key).contains k)
  | [], h => by simp
  | a :: l, h => by
    rw [List.foldl_cons, contains_foldl_insert k l]
    by_cases ha : k = key a
    · subst ha
      simp [contains]
    · have hcontains : (h.insert (key a) (value a)).contains k = h.contains k := by
        rw [contains, find_insert_of_ne h (value a) ha, contains]
      simp [hcontains, ha]

end Foldl

theorem find_remove (k k' : κ) : ∀ h : QHash κ ν, (h.remove k).find k' = if k' = k then none else h.find k'
  | [] => by simp [remove]
  | (a, v) :: h => by
    have ih := find_remove k k' h
    unfold remove at ih ⊢
    rw [List.filter_cons]
    by_cases ha : a = k
    · rw [if_neg (by simp [ha]), ih]
      by_cases hk : k' = k
      · rw [if_pos hk, if_pos hk]
      · rw [if_neg hk, if_neg hk]
        exact (find_insert_of_ne h v (by rw [ha]; exact hk)).symm
    · rw [if_pos (by simpa using ha)]
      have hcons := fun l : QHash κ ν => find_insert l a k' v
      unfold insert at hcons
      rw [hcons, hcons, ih]
      by_cases hk : k' = a
      · rw [if_pos hk, if_neg (by rw [hk]; exact ha), if_pos hk]
      · rw [if_neg hk, if_neg hk]

end QHash

/-- A `QVersionNumber` as its segments. -/
abbrev QVersionNumber := List Nat

namespace QVersionNumber

/-- The segments from `bytes` on, `segment` the digits read of the current one. -/
def segmentsFrom (segment : Option Nat) : QByteArray → QVersionNumber
  | [] => segment.toList.filter (· ≤ 0x7FFFFFFF)
  | c :: bytes =>
    if 48 ≤ c ∧ c ≤ 57 then segmentsFrom (some (segment.getD 0 * 10 + (c.toNat - 48))) bytes
    else
      match segment with
      | some n =>
        if n > 0x7FFFFFFF then [] else if c = 46 then n :: segmentsFrom none bytes else [n]
      | none => []

/-- `QVersionNumber::fromString`: decimal numbers between periods, up to the suffix. -/
def fromString (bytes : QByteArray) : QVersionNumber := segmentsFrom none bytes

/-- `QVersionNumber::operator<=`. -/
def le : QVersionNumber → QVersionNumber → Bool
  | [], _ => true
  | _ :: _, [] => false
  | a :: v, b :: w => a < b || (a = b && le v w)

end QVersionNumber

structure PerfEventHeader where
  type : UInt32 := 0
  misc : UInt16 := 0
  size : UInt16 := 0
deriving DecidableEq, Repr, Inhabited

/-- The size of the header itself, which `size` includes. -/
def PerfEventHeader.fixedLength : UInt16 := 8

/-! ## Attributes -/

/-- `perf_event_attr`.  The bit fields are one word, lowest bit first as on a little-endian host; a union is its first
member's field. -/
structure PerfEventAttributes where
  type : UInt32 := 0
  size : UInt32 := 0
  config : UInt64 := 0
  samplePeriod : UInt64 := 0
  sampleType : UInt64 := 0
  readFormat : UInt64 := 0
  flags : UInt64 := 0
  wakeupEvents : UInt32 := 0
  bpType : UInt32 := 0
  bpAddr : UInt64 := 0
  bpLen : UInt64 := 0
  branchSampleType : UInt64 := 0
  sampleRegsUser : UInt64 := 0
  sampleStackUser : UInt32 := 0
  clockid : Int32 := 0
  sampleRegsIntr : UInt64 := 0
  auxWatermark : UInt32 := 0
  sampleMaxStack : UInt16 := 0
  reserved2 : UInt16 := 0
deriving DecidableEq, Repr, Inhabited

namespace PerfEventAttributes

def SIZE_VER0 : UInt32 := 64
def SIZE_VER1 : UInt32 := 72
def SIZE_VER2 : UInt32 := 80
def SIZE_VER3 : UInt32 := 96
def SIZE_VER4 : UInt32 := 104
def SIZE_VER5 : UInt32 := 112

def FORMAT_TOTAL_TIME_ENABLED : UInt64 := (1 : UInt64) <<< 0
def FORMAT_TOTAL_TIME_RUNNING : UInt64 := (1 : UInt64) <<< 1
def FORMAT_ID : UInt64 := (1 : UInt64) <<< 2
def FORMAT_GROUP : UInt64 := (1 : UInt64) <<< 3
def FORMAT_LOST : UInt64 := (1 : UInt64) <<< 4

def SAMPLE_IP : UInt64 := (1 : UInt64) <<< 0
def SAMPLE_TID : UInt64 := (1 : UInt64) <<< 1
def SAMPLE_TIME : UInt64 := (1 : UInt64) <<< 2
def SAMPLE_ADDR : UInt64 := (1 : UInt64) <<< 3
def SAMPLE_READ : UInt64 := (1 : UInt64) <<< 4
def SAMPLE_CALLCHAIN : UInt64 := (1 : UInt64) <<< 5
def SAMPLE_ID : UInt64 := (1 : UInt64) <<< 6
def SAMPLE_CPU : UInt64 := (1 : UInt64) <<< 7
def SAMPLE_PERIOD : UInt64 := (1 : UInt64) <<< 8
def SAMPLE_STREAM_ID : UInt64 := (1 : UInt64) <<< 9
def SAMPLE_RAW : UInt64 := (1 : UInt64) <<< 10
def SAMPLE_BRANCH_STACK : UInt64 := (1 : UInt64) <<< 11
def SAMPLE_REGS_USER : UInt64 := (1 : UInt64) <<< 12
def SAMPLE_STACK_USER : UInt64 := (1 : UInt64) <<< 13
def SAMPLE_WEIGHT : UInt64 := (1 : UInt64) <<< 14
def SAMPLE_DATA_SRC : UInt64 := (1 : UInt64) <<< 15
def SAMPLE_IDENTIFIER : UInt64 := (1 : UInt64) <<< 16
def SAMPLE_TRANSACTION : UInt64 := (1 : UInt64) <<< 17

/-- Extra flag, to check if a record has a sample id at all. -/
def SAMPLE_ID_ALL : UInt64 := (1 : UInt64) <<< 31

def TYPE_HARDWARE : UInt32 := 0
def TYPE_SOFTWARE : UInt32 := 1
def TYPE_TRACEPOINT : UInt32 := 2
def TYPE_HARDWARE_CACHE : UInt32 := 3
def TYPE_RAW : UInt32 := 4
def TYPE_BREAKPOINT : UInt32 := 5

/-- The flag bit `m_sampleIdAll`, after eighteen bits of other flags. -/
def sampleIdAll (attrs : PerfEventAttributes) : Bool := attrs.flags &&& ((1 : UInt64) <<< 18) != 0

def hardwareNames : List String :=
  ["cpu-cycles", "instructions", "cache-references", "cache-misses", "branch-instructions", "branch-misses",
    "bus-cycles", "stalled-cycles-frontend", "stalled-cycles-backend", "ref-cycles"]

def softwareNames : List String :=
  ["cpu-clock", "task-clock", "page-faults", "context-switches", "cpu-migrations", "minor-faults", "major-faults",
    "alignment-faults", "emulation-faults", "dummy"]

def cacheNames : List String := ["L1-dcache", "L1-icache", "LLC", "dTLB", "iTLB", "branch", "node"]

def cacheOperationNames : List String := ["-load", "-store", "-prefetch"]

def cacheResultNames : List String := ["-refs", "-misses"]

/-- `text` and the config in hex. -/
def nameWithConfig (attrs : PerfEventAttributes) (text : String) : QByteArray :=
  QByteArray.ofString text ++ QByteArray.number attrs.config.toNat 16

/-- The name of a cache event: cache, operation and result, up to the first that is unknown. -/
def cacheName (attrs : PerfEventAttributes) : QByteArray :=
  match cacheNames[(attrs.config &&& 0xff).toNat]? with
  | none => attrs.nameWithConfig "hardware cache event: 0x"
  | some cache =>
    match cacheOperationNames[((attrs.config >>> 8) &&& 0xff).toNat]? with
    | none => QByteArray.ofString cache ++ attrs.nameWithConfig " event: 0x"
    | some operation =>
      match cacheResultNames[((attrs.config >>> 16) &&& 0xff).toNat]? with
      | none => QByteArray.ofString (cache ++ operation) ++ attrs.nameWithConfig " event: 0x"
      | some result => QByteArray.ofString (cache ++ operation ++ result)

/-- `PerfEventAttributes::name`. -/
def name (attrs : PerfEventAttributes) : QByteArray :=
  if attrs.type = TYPE_HARDWARE then
    (hardwareNames[attrs.config.toNat]?.map QByteArray.ofString).getD (attrs.nameWithConfig "hardware event: 0x")
  else if attrs.type = TYPE_SOFTWARE then
    (softwareNames[attrs.config.toNat]?.map QByteArray.ofString).getD (attrs.nameWithConfig "software event: 0x")
  else if attrs.type = TYPE_TRACEPOINT then attrs.nameWithConfig "tracepoint: 0x"
  else if attrs.type = TYPE_HARDWARE_CACHE then attrs.cacheName
  else if attrs.type = TYPE_RAW then attrs.nameWithConfig "raw event: 0x"
  else if attrs.type = TYPE_BREAKPOINT then attrs.nameWithConfig "breakpoint: 0x"
  else
    QByteArray.ofString "unknown event " ++ QByteArray.number attrs.type.toNat 10 ++ attrs.nameWithConfig ": 0x"

/-- Where the id stands in a sample of these attributes, `-1` where it has none. -/
def sampleIdOffset (attrs : PerfEventAttributes) : Int :=
  if attrs.sampleType &&& SAMPLE_IDENTIFIER != 0 then 0
  else if attrs.sampleType &&& SAMPLE_ID == 0 then -1
  else
    (if attrs.sampleType &&& SAMPLE_IP != 0 then 8 else 0)
      + (if attrs.sampleType &&& SAMPLE_TID != 0 then 8 else 0)
      + (if attrs.sampleType &&& SAMPLE_TIME != 0 then 8 else 0)
      + (if attrs.sampleType &&& SAMPLE_ADDR != 0 then 8 else 0)

end PerfEventAttributes

/-! ## Event records -/

structure PerfSampleId where
  pid : Int32 := 0
  tid : Int32 := 0
  time : UInt64 := 0
  id : UInt64 := 0
  streamId : UInt64 := 0
  cpu : UInt32 := 0
  res : UInt32 := 0
  sampleType : UInt64 := 0
deriving DecidableEq, Repr, Inhabited

structure PerfRecord where
  header : PerfEventHeader := {}
  sampleId : PerfSampleId := {}
deriving DecidableEq, Repr, Inhabited

namespace PerfRecord

def time (r : PerfRecord) : UInt64 := r.sampleId.time
def cpu (r : PerfRecord) : UInt32 := r.sampleId.cpu
def size (r : PerfRecord) : UInt16 := r.header.size
def misc (r : PerfRecord) : UInt16 := r.header.misc

end PerfRecord

/-- `PerfRecordMmap`; the extra numbers of a `PerfRecordMmap2` are read and thrown out. -/
structure PerfRecordMmap extends PerfRecord where
  pid : Int32 := 0
  tid : Int32 := 0
  addr : UInt64 := 0
  len : UInt64 := 0
  pgoff : UInt64 := 0
  filename : QByteArray := []
deriving DecidableEq, Repr, Inhabited

structure PerfRecordLost extends PerfRecord where
  id : UInt64 := 0
  lost : UInt64 := 0
deriving DecidableEq, Repr, Inhabited

structure PerfRecordComm extends PerfRecord where
  pid : Int32 := 0
  tid : Int32 := 0
  comm : QByteArray := []
deriving DecidableEq, Repr, Inhabited

/-- `PerfRecordFork`, and `PerfRecordExit` with it.  Its own `m_time` is read but `time()` is the sample id's. -/
structure PerfRecordFork extends PerfRecord where
  childPid : Int32 := 0
  parentPid : Int32 := 0
  childTid : Int32 := 0
  parentTid : Int32 := 0
  ownTime : UInt64 := 0
deriving DecidableEq, Repr, Inhabited

structure PerfRecordContextSwitch extends PerfRecord where
  nextPrevPid : Int32 := 0
  nextPrevTid : Int32 := 0
deriving DecidableEq, Repr, Inhabited

namespace PerfRecordContextSwitch

def pid (r : PerfRecordContextSwitch) : Int32 := r.sampleId.pid
def tid (r : PerfRecordContextSwitch) : Int32 := r.sampleId.tid

end PerfRecordContextSwitch

namespace PerfRecordLost

def pid (r : PerfRecordLost) : Int32 := r.sampleId.pid
def tid (r : PerfRecordLost) : Int32 := r.sampleId.tid

end PerfRecordLost

/-- `PERF_RECORD_MISC_SWITCH_OUT`. -/
def MISC_SWITCH_OUT : UInt16 := (1 : UInt16) <<< 13

structure ReadFormat where
  value : UInt64 := 0
  id : UInt64 := 0
  lost : UInt64 := 0
deriving DecidableEq, Repr, Inhabited

structure BranchEntry where
  source : UInt64 := 0
  target : UInt64 := 0
  flags : UInt64 := 0
deriving DecidableEq, Repr, Inhabited

structure PerfRecordSample extends PerfRecord where
  readFormat : UInt64 := 0
  registerMask : UInt64 := 0
  ip : UInt64 := 0
  addr : UInt64 := 0
  period : UInt64 := 0
  timeEnabled : UInt64 := 0
  timeRunning : UInt64 := 0
  registerAbi : UInt64 := 0
  weight : UInt64 := 0
  dataSrc : UInt64 := 0
  transaction : UInt64 := 0
  readFormats : List ReadFormat := []
  callchain : List UInt64 := []
  rawData : QByteArray := []
  branchStack : List BranchEntry := []
  registers : List UInt64 := []
  userStack : QByteArray := []
deriving DecidableEq, Repr, Inhabited

namespace PerfRecordSample

def pid (r : PerfRecordSample) : Int32 := r.sampleId.pid

end PerfRecordSample

structure PerfRecordAttr extends PerfRecord where
  attr : PerfEventAttributes := {}
  ids : List UInt64 := []
deriving DecidableEq, Repr, Inhabited

/-! ## Tracing data and features -/

structure FormatField where
  type : QByteArray := []
  name : QByteArray := []
  offset : UInt32 := 0
  size : UInt32 := 0
  arraylen : UInt32 := 0
  elementsize : UInt32 := 0
  flags : UInt32 := 0
deriving DecidableEq, Repr, Inhabited

structure EventFormat where
  name : QByteArray := []
  system : QByteArray := []
  commonFields : List FormatField := []
  fields : List FormatField := []
  flags : UInt32 := 0
deriving DecidableEq, Repr, Inhabited

structure PerfTracingData where
  size : UInt32 := 0
  version : QByteArray := []
  bigEndian : Bool := false
  fileLongSize : Bool := false
  filePageSize : Int32 := 0
  eventFormats : QHash Int32 EventFormat := []
  headerFields : List FormatField := []
  ftracePrintk : QHash UInt64 QByteArray := []
  savedCmdlines : List QByteArray := []
deriving DecidableEq, Repr, Inhabited

structure BuildId where
  pid : Int32 := 0
  id : QByteArray := []
  fileName : QByteArray := []
deriving DecidableEq, Repr, Inhabited

structure EventDesc where
  attrs : PerfEventAttributes := {}
  name : QByteArray := []
  ids : List UInt64 := []
deriving DecidableEq, Repr, Inhabited

/-- The features `PerfUnwind::features` acts on; the others are only written to the output. -/
structure PerfFeatures where
  tracingData : PerfTracingData := {}
  eventDescs : List EventDesc := []
  version : QByteArray := []
  buildIds : List BuildId := []
deriving DecidableEq, Repr, Inhabited

end PerfParser
