import PerfParser.Layouts
import PerfParser.BuildIds
import PerfParser.FileAttributes
import PerfParser.TracingBlob
/-!
# FeatureLayouts — what the features of a file look like, and back

The layouts are those that the operators of `perffeatures.cpp` and `perfattributes.cpp` take: numbers, strings that zeros
are behind, and lists with their lengths in front.  Every section is read as what it holds, into the field of its feature
(`reads_readFeature`).
-/
namespace PerfParser

open QDataStream Reader

variable (bigEndian : Bool)

/-! ## Attributes -/

/-- An attribute as it is written, with what a newer version has behind the fields that are read. -/
structure WrittenAttribute where
  attrs : PerfEventAttributes
  newer : QByteArray := []
  version : attrs.size = PerfEventAttributes.SIZE_VER0 ∨ attrs.size = PerfEventAttributes.SIZE_VER1 ∨
    attrs.size = PerfEventAttributes.SIZE_VER2 ∨ attrs.size = PerfEventAttributes.SIZE_VER3 ∨
    attrs.size = PerfEventAttributes.SIZE_VER4 ∨ PerfEventAttributes.SIZE_VER5 ≤ attrs.size
  within : attrs.Within attrs.size
  length_newer : newer.length = attrs.size.toNat - 112

namespace WrittenAttribute

open PerfEventAttributes

theorem swapFlags_zero : swapFlags 0 = 0 := by decide +kernel

variable (w : WrittenAttribute)

/-- The fields of the oldest version. -/
def version0 : List QByteArray :=
  [Layout.u64 bigEndian w.attrs.config, Layout.u64 bigEndian w.attrs.samplePeriod,
    Layout.u64 bigEndian w.attrs.sampleType, Layout.u64 bigEndian w.attrs.readFormat, Layout.u64 bigEndian w.attrs.flags,
    Layout.u32 bigEndian w.attrs.wakeupEvents, Layout.u32 bigEndian w.attrs.bpType, Layout.u64 bigEndian w.attrs.bpAddr]

def version3 : List QByteArray :=
  [Layout.u64 bigEndian w.attrs.sampleRegsUser, Layout.u32 bigEndian w.attrs.sampleStackUser,
    Layout.i32 bigEndian w.attrs.clockid]

def version5 : List QByteArray :=
  [Layout.u32 bigEndian w.attrs.auxWatermark, Layout.u16 bigEndian w.attrs.sampleMaxStack,
    Layout.u16 bigEndian w.attrs.reserved2]

def sections : List QByteArray :=
  [Layout.u32 bigEndian w.attrs.type, Layout.u32 bigEndian w.attrs.size, (w.version0 bigEndian).flatten,
    if w.attrs.size > SIZE_VER0 then Layout.u64 bigEndian w.attrs.bpLen else [],
    if w.attrs.size > SIZE_VER1 then Layout.u64 bigEndian w.attrs.branchSampleType else [],
    if w.attrs.size > SIZE_VER2 then (w.version3 bigEndian).flatten else [],
    if w.attrs.size > SIZE_VER3 then Layout.u64 bigEndian w.attrs.sampleRegsIntr else [],
    if w.attrs.size > SIZE_VER4 then (w.version5 bigEndian).flatten else [],
    if w.attrs.size > SIZE_VER5 then w.newer else []]

def layout : QByteArray := (w.sections bigEndian).flatten

/-- What the reader makes of the attribute.  The flags of another byte order are swapped. -/
def arrived : PerfEventAttributes :=
  { w.attrs with flags := if bigEndian then swapFlags w.attrs.flags else w.attrs.flags }

/-- No flag is set that the swap would misplace. -/
def Unswapped : Prop := bigEndian = true → w.attrs.flags = 0

theorem arrived_eq {bigEndian : Bool} {w : WrittenAttribute} (h : w.Unswapped bigEndian) :
    w.arrived bigEndian = w.attrs := by
  obtain ⟨attrs, newer, version, within, length_newer⟩ := w
  cases bigEndian with
  | false => rfl
  | true =>
    have hflags : attrs.flags = 0 := h rfl
    show { attrs with flags := swapFlags attrs.flags } = attrs
    rw [hflags, swapFlags_zero, ← hflags]

/-- What is there once the fields of the versions up to `n` are read. -/
def upTo (n : Nat) : PerfEventAttributes :=
  { w.arrived bigEndian with
    bpLen := if n < 1 then 0 else w.attrs.bpLen
    branchSampleType := if n < 2 then 0 else w.attrs.branchSampleType
    sampleRegsUser := if n < 3 then 0 else w.attrs.sampleRegsUser
    sampleStackUser := if n < 3 then 0 else w.attrs.sampleStackUser
    clockid := if n < 3 then 0 else w.attrs.clockid
    sampleRegsIntr := if n < 4 then 0 else w.attrs.sampleRegsIntr
    auxWatermark := if n < 5 then 0 else w.attrs.auxWatermark
    sampleMaxStack := if n < 5 then 0 else w.attrs.sampleMaxStack
    reserved2 := if n < 5 then 0 else w.attrs.reserved2 }

theorem reads_version0 : Reads (readVersion0 bigEndian { type := w.attrs.type, size := w.attrs.size })
    (w.version0 bigEndian).flatten (w.upTo bigEndian 0) :=
  (Layout.reads_u64 bigEndian _).section_cons <| (Layout.reads_u64 bigEndian _).section_cons <|
    (Layout.reads_u64 bigEndian _).section_cons <| (Layout.reads_u64 bigEndian _).section_cons <|
    (Layout.reads_u64 bigEndian _).section_cons <| (Layout.reads_u32 bigEndian _).section_cons <|
    (Layout.reads_u32 bigEndian _).section_cons <| ((Layout.reads_u64 bigEndian _).map _).section_last

theorem reads_version1 : Reads (when (w.attrs.size > SIZE_VER0) (readVersion1 bigEndian) (w.upTo bigEndian 0))
    (if w.attrs.size > SIZE_VER0 then Layout.u64 bigEndian w.attrs.bpLen else []) (w.upTo bigEndian 1) := by
  refine .when_of (fun _ => (Layout.reads_u64 bigEndian _).map _) fun h => ?_
  rw [upTo, upTo, w.within.bpLen (UInt32.not_lt.1 h)]
  rfl

theorem reads_version2 : Reads (when (w.attrs.size > SIZE_VER1) (readVersion2 bigEndian) (w.upTo bigEndian 1))
    (if w.attrs.size > SIZE_VER1 then Layout.u64 bigEndian w.attrs.branchSampleType else []) (w.upTo bigEndian 2) := by
  refine .when_of (fun _ => (Layout.reads_u64 bigEndian _).map _) fun h => ?_
  rw [upTo, upTo, w.within.branchSampleType (UInt32.not_lt.1 h)]
  rfl

theorem reads_version3 : Reads (when (w.attrs.size > SIZE_VER2) (readVersion3 bigEndian) (w.upTo bigEndian 2))
    (if w.attrs.size > SIZE_VER2 then (w.version3 bigEndian).flatten else []) (w.upTo bigEndian 3) := by
  refine .when_of (fun _ => (Layout.reads_u64 bigEndian _).section_cons <| (Layout.reads_u32 bigEndian _).section_cons <|
    ((Layout.reads_i32 bigEndian _).map _).section_last) fun h => ?_
  have hle := UInt32.not_lt.1 h
  rw [upTo, upTo, w.within.sampleRegsUser hle, w.within.sampleStackUser hle, w.within.clockid hle]
  rfl

theorem reads_version4 : Reads (when (w.attrs.size > SIZE_VER3) (readVersion4 bigEndian) (w.upTo bigEndian 3))
    (if w.attrs.size > SIZE_VER3 then Layout.u64 bigEndian w.attrs.sampleRegsIntr else []) (w.upTo bigEndian 4) := by
  refine .when_of (fun _ => (Layout.reads_u64 bigEndian _).map _) fun h => ?_
  rw [upTo, upTo, w.within.sampleRegsIntr (UInt32.not_lt.1 h)]
  rfl

theorem reads_version5 : Reads (when (w.attrs.size > SIZE_VER4) (readVersion5 bigEndian) (w.upTo bigEndian 4))
    (if w.attrs.size > SIZE_VER4 then (w.version5 bigEndian).flatten else []) (w.upTo bigEndian 5) := by
  refine .when_of (fun _ => (Layout.reads_u32 bigEndian _).section_cons <| (Layout.reads_u16 bigEndian _).section_cons <|
    ((Layout.reads_u16 bigEndian _).map _).section_last) fun h => ?_
  have hle := UInt32.not_lt.1 h
  rw [upTo, upTo, w.within.auxWatermark hle, w.within.sampleMaxStack hle, w.within.reserved2 hle]
  rfl

theorem reads_skipNewer (h : w.attrs.size > SIZE_VER5) : Reads (skipNewer (w.arrived bigEndian)) w.newer
    (w.arrived bigEndian) := by
  have hskip : ((w.arrived bigEndian).size - SIZE_VER5).toNat = w.newer.length := by
    rw [w.length_newer]
    exact UInt32.toNat_sub_of_le _ _ (Std.le_of_lt h)
  unfold skipNewer
  rw [hskip]
  exact (Reads.skip w.newer).map fun _ => w.arrived bigEndian

theorem size_le : SIZE_VER0 ≤ w.attrs.size := by
  have := w.version
  simp only [← UInt32.toNat_inj, UInt32.le_iff_toNat_le, SIZE_VER0, SIZE_VER1, SIZE_VER2, SIZE_VER3, SIZE_VER4,
    SIZE_VER5, UInt32.toNat_ofNat] at this ⊢
  omega

theorem size_ne_zero : w.attrs.size ≠ 0 := fun hzero => absurd (hzero ▸ w.size_le) (by decide)

/-- **An attribute is read as it was written**, whatever its version, up to its end. -/
theorem reads_read : Reads (PerfEventAttributes.read bigEndian {}) (w.layout bigEndian) (w.arrived bigEndian) := by
  refine (Layout.reads_u32 bigEndian w.attrs.type).section_cons <|
    (Layout.reads_u32 bigEndian w.attrs.size).section_cons ?_
  dsimp only
  rw [if_neg (UInt32.not_lt.2 w.size_le)]
  exact (w.reads_version0 bigEndian).section_cons <| (w.reads_version1 bigEndian).section_cons <|
    (w.reads_version2 bigEndian).section_cons <| (w.reads_version3 bigEndian).section_cons <|
    (w.reads_version4 bigEndian).section_cons <| (w.reads_version5 bigEndian).section_cons <|
    (Reads.when_of (w.reads_skipNewer bigEndian) fun _ => rfl).section_last

/-- An attribute is as long as its size says. -/
theorem length_layout : (w.layout bigEndian).length = w.attrs.size.toNat := by
  have hlength : (w.layout bigEndian).length = 64 + (if 64 < w.attrs.size.toNat then 8 else 0) +
      (if 72 < w.attrs.size.toNat then 8 else 0) + (if 80 < w.attrs.size.toNat then 16 else 0) +
      (if 96 < w.attrs.size.toNat then 8 else 0) + (if 104 < w.attrs.size.toNat then 8 else 0) +
      (if 112 < w.attrs.size.toNat then w.newer.length else 0) := by
    simp only [layout, sections, version0, version3, version5, List.flatten_cons, List.flatten_nil, List.length_append,
      apply_ite List.length, Layout.length_u64, Layout.length_u32, Layout.length_u16, Layout.length_i32, List.length_nil,
      gt_iff_lt, UInt32.lt_iff_toNat_lt]
    simp only [SIZE_VER0, SIZE_VER1, SIZE_VER2, SIZE_VER3, SIZE_VER4, SIZE_VER5, UInt32.toNat_ofNat,
      Nat.reducePow, Nat.reduceMod, Nat.reduceAdd]
    omega
  have hversion := w.version
  simp only [← UInt32.toNat_inj, UInt32.le_iff_toNat_le, SIZE_VER0, SIZE_VER1, SIZE_VER2, SIZE_VER3, SIZE_VER4,
    SIZE_VER5, UInt32.toNat_ofNat] at hversion
  rw [hlength, w.length_newer]
  generalize w.attrs.size.toNat = n at hversion
  rcases hversion with rfl | rfl | rfl | rfl | rfl | h
  case inr.inr.inr.inr.inr =>
    split_ifs <;> omega
  all_goals decide

end WrittenAttribute


/-! ## Strings and lists -/

/-- A string that is read as it is written, with as many zeros behind it. -/
structure Storable (zeros : QByteArray → Nat) (value : QByteArray) : Prop where
  trimmed : removeTrailingZeros value = value
  fits : value.length + zeros value ≤ intMax

namespace Layout

variable (zeros : QByteArray → Nat)

def string (value : QByteArray) : QByteArray :=
  u32 bigEndian (UInt32.ofNat (value.length + zeros value)) ++ (value ++ List.replicate (zeros value) 0)

theorem toNat_ofNat_of_lt {n : Nat} (h : n < 2 ^ 32) : (UInt32.ofNat n).toNat = n := Nat.mod_eq_of_lt h

variable {zeros}

/-- A string is read up to its zeros, whatever was read before. -/
theorem reads_string {value : QByteArray} (h : Storable zeros value) (old : QByteArray) :
    Reads (PerfStringFeature.read bigEndian old) (string bigEndian zeros value) value := by
  have hfits := h.fits
  have hlen : (UInt32.ofNat (value.length + zeros value)).toNat = value.length + zeros value :=
    toNat_ofNat_of_lt (Nat.lt_of_le_of_lt hfits (by decide))
  have hraw : Reads (readRawData (value.length + zeros value)) (value ++ List.replicate (zeros value) 0)
      (value ++ List.replicate (zeros value) 0) :=
    PerfBuildId.Written.reads_readRawData_of_length (by rw [List.length_append, List.length_replicate])
  refine (reads_u32 bigEndian _).bind ?_
  rw [hlen, if_neg (Nat.not_lt.2 hfits)]
  refine (hraw.map removeTrailingZeros).of_eq rfl ?_
  rw [PerfBuildId.Written.removeTrailingZeros_append, h.trimmed]

theorem length_flatMap_u64 (l : List UInt64) : (l.flatMap (u64 bigEndian)).length = 8 * l.length := by
  induction l with
  | nil => rfl
  | cons n l ih =>
    rw [List.flatMap_cons, List.length_append, length_u64, ih, List.length_cons]
    omega

variable {α γ : Type}

/-- What stands in the string makes no difference to the items that are read into it. -/
theorem reads_readItems {item : QByteArray → Reader UInt8 α} {name : α → QByteArray} {f : γ → QByteArray} {g : γ → α} :
    ∀ {l : List γ}, (∀ x ∈ l, ∀ old, Reads (item old) (f x) (g x)) → ∀ old,
      Reads (readItems item name l.length old) (l.flatMap f) (l.map g)
  | [], _, _ => .pure []
  | x :: l, h, old => by
    rw [List.flatMap_cons]
    exact (h x List.mem_cons_self old).bind <|
      (reads_readItems (fun y hy => h y (List.mem_cons_of_mem x hy)) (name (g x))).map _

theorem readParts_eq (bigEndian : Bool) : ∀ (n : Nat) (old : QByteArray),
    PerfCmdline.readParts bigEndian n old = readItems (PerfStringFeature.read bigEndian) id n old
  | 0, _ => rfl
  | n + 1, old => congrArg _ (funext fun part => by rw [readParts_eq bigEndian n]; rfl)

theorem readEvents_eq (bigEndian : Bool) : ∀ (n : Nat) (old : QByteArray),
    PerfEventDesc.readEvents bigEndian n old = readItems (PerfEventDesc.readEvent bigEndian) EventDesc.name n old
  | 0, _ => rfl
  | n + 1, old => congrArg _ (funext fun event => by rw [readEvents_eq bigEndian n])

theorem reads_readParts {l : List QByteArray} (h : ∀ value ∈ l, Storable zeros value) (old : QByteArray) :
    Reads (PerfCmdline.readParts bigEndian l.length old) (l.flatMap (string bigEndian zeros)) l := by
  rw [readParts_eq]
  exact (reads_readItems (g := id) (fun value hvalue => reads_string bigEndian (h value hvalue)) old).of_eq rfl
    (List.map_id l).symm

end Layout

/-! ## Features -/

open PerfHeader (Feature)

/-- An event of the event descriptions as it is written. -/
structure WrittenEventDesc where
  attrs : WrittenAttribute
  name : QByteArray
  ids : List UInt64
  length_ids : ids.length < 2 ^ 32

namespace WrittenEventDesc

variable (zeros : QByteArray → Nat) (w : WrittenEventDesc)

def layout : QByteArray :=
  w.attrs.layout bigEndian ++ (Layout.u32 bigEndian (UInt32.ofNat w.ids.length) ++
    (Layout.string bigEndian zeros w.name ++ w.ids.flatMap (Layout.u64 bigEndian)))

def arrived : EventDesc := { attrs := w.attrs.arrived bigEndian, name := w.name, ids := w.ids }

/-- What is read of it of what was written. -/
def desc : EventDesc := { attrs := w.attrs.attrs, name := w.name, ids := w.ids }

variable {zeros}

theorem reads_readEvent (h : Storable zeros w.name) (old : QByteArray) :
    Reads (PerfEventDesc.readEvent bigEndian old) (w.layout bigEndian zeros) (w.arrived bigEndian) := by
  refine (w.attrs.reads_read bigEndian).bind <| (Layout.reads_u32 bigEndian _).bind <|
    (Layout.reads_string bigEndian h old).bind ?_
  rw [Layout.toNat_ofNat_of_lt w.length_ids]
  exact (Layout.reads_flatMap_u64 bigEndian w.ids).map _

end WrittenEventDesc

/-- What the features of a file are written from.  Tracing data are a blob of their own, and of build ids and event
descriptions there is more than what is read. -/
structure WrittenFeatures where
  features : PerfFeatureSections
  zeros : QByteArray → Nat
  tracingBlob : QByteArray
  buildIds : List PerfBuildId.Written
  eventSize : UInt32
  eventDescs : List WrittenEventDesc

namespace WrittenFeatures

variable (w : WrittenFeatures)

def string : QByteArray → QByteArray := Layout.string bigEndian w.zeros

/-- The section of a feature. -/
def layout : Feature → QByteArray
  | .tracingData => w.tracingBlob
  | .buildId => w.buildIds.flatMap (PerfBuildId.Written.layout bigEndian)
  | .hostname => w.string bigEndian w.features.hostName
  | .osRelease => w.string bigEndian w.features.osRelease
  | .version => w.string bigEndian w.features.version
  | .arch => w.string bigEndian w.features.arch
  | .nrCpus => Layout.u32 bigEndian w.features.nrCpus.online ++ Layout.u32 bigEndian w.features.nrCpus.available
  | .cpuDesc => w.string bigEndian w.features.cpuDesc
  | .cpuId => w.string bigEndian w.features.cpuId
  | .totalMem => Layout.u64 bigEndian w.features.totalMem
  | .cmdline => Layout.counted bigEndian (w.string bigEndian) w.features.cmdline.cmdline
  | .eventDesc => Layout.u32 bigEndian (UInt32.ofNat w.eventDescs.length) ++ (Layout.u32 bigEndian w.eventSize ++
      w.eventDescs.flatMap (WrittenEventDesc.layout bigEndian w.zeros))
  | .cpuTopology => Layout.counted bigEndian (w.string bigEndian) w.features.cpuTopology.siblingCores ++
      Layout.counted bigEndian (w.string bigEndian) w.features.cpuTopology.siblingThreads
  | .numaTopology => Layout.counted bigEndian (fun node => Layout.u32 bigEndian node.nodeId ++
      (Layout.u64 bigEndian node.memTotal ++ (Layout.u64 bigEndian node.memFree ++ w.string bigEndian node.topology)))
      w.features.numaTopology
  | .pmuMappings => Layout.counted bigEndian (fun pmu => Layout.u32 bigEndian pmu.type ++ w.string bigEndian pmu.name)
      w.features.pmuMappings
  | .groupDesc => Layout.counted bigEndian (fun desc => w.string bigEndian desc.name ++
      (Layout.u32 bigEndian desc.leaderIndex ++ Layout.u32 bigEndian desc.numMembers)) w.features.groupDescs
  | .compressed => Layout.u32 bigEndian w.features.compressed.version ++ (Layout.u32 bigEndian w.features.compressed.type ++
      (Layout.u32 bigEndian w.features.compressed.level ++ (Layout.u32 bigEndian w.features.compressed.ratio ++
        Layout.u32 bigEndian w.features.compressed.mmapLen)))
  | _ => []

/-- What the features are when they are read. -/
def arrived : PerfFeatureSections :=
  { w.features with
    tracingData := PerfTracingData.parse { size := UInt32.ofNat w.tracingBlob.length } w.tracingBlob
    buildIds := w.buildIds.map (·.build)
    eventDescs := w.eventDescs.map (WrittenEventDesc.arrived bigEndian) }

/-- What is read of them of what was written. -/
def written : PerfFeatureSections :=
  { w.features with
    tracingData := PerfTracingData.parse { size := UInt32.ofNat w.tracingBlob.length } w.tracingBlob
    buildIds := w.buildIds.map (·.build)
    eventDescs := w.eventDescs.map WrittenEventDesc.desc }

theorem arrived_eq {bigEndian : Bool} {w : WrittenFeatures} (h : ∀ e ∈ w.eventDescs, e.attrs.Unswapped bigEndian) :
    w.arrived bigEndian = w.written := by
  have hdescs : w.eventDescs.map (WrittenEventDesc.arrived bigEndian) = w.eventDescs.map WrittenEventDesc.desc :=
    List.map_congr_left fun e he => by rw [WrittenEventDesc.arrived, WrittenAttribute.arrived_eq (h e he)]; rfl
  rw [arrived, hdescs]
  rfl

/-- The lengths fit their fields, and strings are read as they are. -/
structure Fits : Prop where
  tracingBlob : w.tracingBlob.length ≤ intMax
  hostName : Storable w.zeros w.features.hostName
  osRelease : Storable w.zeros w.features.osRelease
  version : Storable w.zeros w.features.version
  arch : Storable w.zeros w.features.arch
  cpuDesc : Storable w.zeros w.features.cpuDesc
  cpuId : Storable w.zeros w.features.cpuId
  cmdline : w.features.cmdline.cmdline.length < 2 ^ 32 ∧ ∀ part ∈ w.features.cmdline.cmdline, Storable w.zeros part
  eventDescs : w.eventDescs.length < 2 ^ 32 ∧ ∀ event ∈ w.eventDescs, Storable w.zeros event.name
  siblingCores : w.features.cpuTopology.siblingCores.length < 2 ^ 32 ∧
    ∀ cores ∈ w.features.cpuTopology.siblingCores, Storable w.zeros cores
  siblingThreads : w.features.cpuTopology.siblingThreads.length < 2 ^ 32 ∧
    ∀ threads ∈ w.features.cpuTopology.siblingThreads, Storable w.zeros threads
  numaTopology : w.features.numaTopology.length < 2 ^ 32 ∧
    ∀ node ∈ w.features.numaTopology, Storable w.zeros node.topology
  pmuMappings : w.features.pmuMappings.length < 2 ^ 32 ∧ ∀ pmu ∈ w.features.pmuMappings, Storable w.zeros pmu.name
  groupDescs : w.features.groupDescs.length < 2 ^ 32 ∧ ∀ desc ∈ w.features.groupDescs, Storable w.zeros desc.name

end WrittenFeatures

namespace PerfFeatureSections

/-- `s` with a feature of `t`. -/
def put (t s : PerfFeatureSections) : Feature → PerfFeatureSections
  | .tracingData => { s with tracingData := t.tracingData }
  | .buildId => { s with buildIds := t.buildIds }
  | .hostname => { s with hostName := t.hostName }
  | .osRelease => { s with osRelease := t.osRelease }
  | .version => { s with version := t.version }
  | .arch => { s with arch := t.arch }
  | .nrCpus => { s with nrCpus := t.nrCpus }
  | .cpuDesc => { s with cpuDesc := t.cpuDesc }
  | .cpuId => { s with cpuId := t.cpuId }
  | .totalMem => { s with totalMem := t.totalMem }
  | .cmdline => { s with cmdline := t.cmdline }
  | .eventDesc => { s with eventDescs := t.eventDescs }
  | .cpuTopology => { s with cpuTopology := t.cpuTopology }
  | .numaTopology => { s with numaTopology := t.numaTopology }
  | .pmuMappings => { s with pmuMappings := t.pmuMappings }
  | .groupDesc => { s with groupDescs := t.groupDescs }
  | .compressed => { s with compressed := t.compressed }
  | _ => s

end PerfFeatureSections

namespace WrittenFeatures

open PerfFeatureSections (readFeature)

variable {w : WrittenFeatures} {δ : Type} (E : Env δ) {zeros : QByteArray → Nat}

theorem reads_cmdline {parts : List QByteArray} (hlen : parts.length < 2 ^ 32) (h : ∀ part ∈ parts, Storable zeros part) :
    Reads (PerfCmdline.read bigEndian {}) (Layout.counted bigEndian (Layout.string bigEndian zeros) parts) ⟨parts⟩ := by
  refine (Layout.reads_u32 bigEndian (UInt32.ofNat parts.length)).bind ?_
  rw [Layout.toNat_ofNat_of_lt hlen]
  exact (Layout.reads_readParts bigEndian h []).map _

theorem reads_eventDesc {events : List WrittenEventDesc} (hlen : events.length < 2 ^ 32)
    (h : ∀ event ∈ events, Storable zeros event.name) (eventSize : UInt32) :
    Reads (PerfEventDesc.read bigEndian {})
      (Layout.u32 bigEndian (UInt32.ofNat events.length) ++ (Layout.u32 bigEndian eventSize ++
        events.flatMap (WrittenEventDesc.layout bigEndian zeros)))
      ⟨events.map (WrittenEventDesc.arrived bigEndian)⟩ := by
  refine (Layout.reads_u32 bigEndian _).bind <| (Layout.reads_u32 bigEndian _).bind ?_
  rw [Layout.toNat_ofNat_of_lt hlen, Layout.readEvents_eq]
  exact (Layout.reads_readItems (fun event hevent => event.reads_readEvent bigEndian (h event hevent)) []).map _

theorem reads_cpuTopology {t : PerfCpuTopology} (hcores : t.siblingCores.length < 2 ^ 32)
    (hcores' : ∀ cores ∈ t.siblingCores, Storable zeros cores) (hthreads : t.siblingThreads.length < 2 ^ 32)
    (hthreads' : ∀ threads ∈ t.siblingThreads, Storable zeros threads) :
    Reads (PerfCpuTopology.read bigEndian {})
      (Layout.counted bigEndian (Layout.string bigEndian zeros) t.siblingCores ++
        Layout.counted bigEndian (Layout.string bigEndian zeros) t.siblingThreads) t := by
  rw [Layout.counted, Layout.counted, List.append_assoc]
  refine (Layout.reads_u32 bigEndian (UInt32.ofNat t.siblingCores.length)).bind ?_
  rw [Layout.toNat_ofNat_of_lt hcores]
  refine (Layout.reads_readParts bigEndian hcores' []).bind <|
    (Layout.reads_u32 bigEndian (UInt32.ofNat t.siblingThreads.length)).bind ?_
  rw [Layout.toNat_ofNat_of_lt hthreads]
  exact (Layout.reads_readParts bigEndian hthreads' _).map _

theorem reads_numaTopology {nodes : List NumaNode} (hlen : nodes.length < 2 ^ 32)
    (h : ∀ node ∈ nodes, Storable zeros node.topology) :
    Reads (readNumaTopology bigEndian)
      (Layout.counted bigEndian (fun node => Layout.u32 bigEndian node.nodeId ++ (Layout.u64 bigEndian node.memTotal ++
        (Layout.u64 bigEndian node.memFree ++ Layout.string bigEndian zeros node.topology))) nodes) nodes := by
  refine (Layout.reads_u32 bigEndian (UInt32.ofNat nodes.length)).bind ?_
  rw [Layout.toNat_ofNat_of_lt hlen]
  refine (Layout.reads_readItems (g := id) (fun node hnode old => ?_) []).of_eq rfl (List.map_id nodes).symm
  exact (Layout.reads_u32 bigEndian _).bind <| (Layout.reads_u64 bigEndian _).bind <|
    (Layout.reads_u64 bigEndian _).bind <| (Layout.reads_string bigEndian (h node hnode) old).map _

theorem reads_pmuMappings {pmus : List Pmu} (hlen : pmus.length < 2 ^ 32) (h : ∀ pmu ∈ pmus, Storable zeros pmu.name) :
    Reads (readPmuMappings bigEndian)
      (Layout.counted bigEndian (fun pmu => Layout.u32 bigEndian pmu.type ++ Layout.string bigEndian zeros pmu.name) pmus)
      pmus := by
  refine (Layout.reads_u32 bigEndian (UInt32.ofNat pmus.length)).bind ?_
  rw [Layout.toNat_ofNat_of_lt hlen]
  refine (Layout.reads_readItems (g := id) (fun pmu hpmu old => ?_) []).of_eq rfl (List.map_id pmus).symm
  exact (Layout.reads_u32 bigEndian _).bind <| (Layout.reads_string bigEndian (h pmu hpmu) old).map _

theorem reads_groupDescs {descs : List GroupDesc} (hlen : descs.length < 2 ^ 32)
    (h : ∀ desc ∈ descs, Storable zeros desc.name) :
    Reads (readGroupDescs bigEndian)
      (Layout.counted bigEndian (fun desc => Layout.string bigEndian zeros desc.name ++
        (Layout.u32 bigEndian desc.leaderIndex ++ Layout.u32 bigEndian desc.numMembers)) descs) descs := by
  refine (Layout.reads_u32 bigEndian (UInt32.ofNat descs.length)).bind ?_
  rw [Layout.toNat_ofNat_of_lt hlen]
  refine (Layout.reads_readItems (g := id) (fun desc hdesc old => ?_) []).of_eq rfl (List.map_id descs).symm
  exact (Layout.reads_string bigEndian (h desc hdesc) old).bind <| (Layout.reads_u32 bigEndian _).bind <|
    (Layout.reads_u32 bigEndian _).map _

theorem toUInt32_of_toInt {size : Int64} {n : Nat} (h : size.toInt = n) (hn : n < 2 ^ 32) :
    size.toUInt64.toUInt32 = UInt32.ofNat n := by
  have hof : size = Int64.ofNat n := by
    rw [← Int64.ofInt_toInt size, h]
    rfl
  refine UInt32.toNat.inj ?_
  rw [hof, Int64.toUInt64_ofNat', UInt64.toNat_toUInt32, UInt64.toNat_ofNat_of_lt' (Nat.lt_trans hn (by decide)),
    Layout.toNat_ofNat_of_lt hn, Nat.mod_eq_of_lt hn]

/-- **A feature is read as it was written**, into a field where nothing is yet. -/
theorem reads_readFeature (h : w.Fits) (hparse : E.parseTracingData = PerfTracingData.parse) (arch : QByteArray)
    {feature : Feature} (hid : feature ≠ .buildId) {size : Int64}
    (hsize : size.toInt = (w.layout E.bigEndian feature).length) :
    Reads (readFeature E feature size { arch }) (w.layout E.bigEndian feature)
      (PerfFeatureSections.put (w.arrived E.bigEndian) { arch } feature) := by
  have hstring {value : QByteArray} (hvalue : Storable w.zeros value) (f : QByteArray → PerfFeatureSections) :
      Reads (f <$> PerfStringFeature.read E.bigEndian []) (w.string E.bigEndian value) (f value) :=
    (Layout.reads_string E.bigEndian hvalue []).map f
  cases feature with
  | buildId => exact absurd rfl hid
  | tracingData =>
    have hblob := h.tracingBlob
    have hlt : w.tracingBlob.length < 2 ^ 32 := Nat.lt_of_le_of_lt hblob (by decide)
    have hsize' : size.toInt = w.tracingBlob.length := hsize
    have hnat := toUInt32_of_toInt hsize' hlt
    have hsmall : ¬(size.toInt > 0xFFFFFFFF ∨ size < 0) := by
      rw [hsize', Int64.lt_iff_toInt_lt, hsize']
      simp only [Int64.toInt_zero]
      omega
    have hread : Reads (PerfData.readTracingData E { size := UInt32.ofNat w.tracingBlob.length }) w.tracingBlob
        (PerfTracingData.parse { size := UInt32.ofNat w.tracingBlob.length } w.tracingBlob) := by
      unfold PerfData.readTracingData
      rw [Layout.toNat_ofNat_of_lt hlt, if_neg (Nat.not_lt.2 hblob), hparse]
      exact (PerfBuildId.Written.reads_readRawData_of_length rfl).map _
    unfold readFeature
    dsimp only
    rw [if_neg hsmall, hnat]
    exact hread.map _
  | hostname => exact hstring h.hostName _
  | osRelease => exact hstring h.osRelease _
  | version => exact hstring h.version _
  | arch => exact (Layout.reads_string E.bigEndian h.arch arch).map _
  | nrCpus => exact ((Layout.reads_u32 E.bigEndian _).bind ((Layout.reads_u32 E.bigEndian _).map _)).map _
  | cpuDesc => exact hstring h.cpuDesc _
  | cpuId => exact hstring h.cpuId _
  | totalMem => exact (Layout.reads_u64 E.bigEndian _).map _
  | cmdline => exact (reads_cmdline E.bigEndian h.cmdline.1 h.cmdline.2).map _
  | eventDesc => exact (reads_eventDesc E.bigEndian h.eventDescs.1 h.eventDescs.2 w.eventSize).map _
  | cpuTopology =>
    exact (reads_cpuTopology E.bigEndian h.siblingCores.1 h.siblingCores.2 h.siblingThreads.1 h.siblingThreads.2).map _
  | numaTopology => exact (reads_numaTopology E.bigEndian h.numaTopology.1 h.numaTopology.2).map _
  | pmuMappings => exact (reads_pmuMappings E.bigEndian h.pmuMappings.1 h.pmuMappings.2).map _
  | groupDesc => exact (reads_groupDescs E.bigEndian h.groupDescs.1 h.groupDescs.2).map _
  | compressed =>
    exact ((Layout.reads_u32 E.bigEndian _).bind <| (Layout.reads_u32 E.bigEndian _).bind <|
      (Layout.reads_u32 E.bigEndian _).bind <| (Layout.reads_u32 E.bigEndian _).bind <|
      (Layout.reads_u32 E.bigEndian _).map _).map _
  | _ => exact .pure _

end WrittenFeatures

/-! ## Sections of a file -/

/-- The file has the content at the place. -/
structure HeldAt (bytes : QByteArray) (offset : Int64) (content : QByteArray) : Prop where
  nonneg : 0 ≤ offset.toInt
  isPrefix : content <+: bytes.drop offset.toInt.toNat

theorem HeldAt.run {bytes content : QByteArray} {offset : Int64} {α : Type} {r : Reader UInt8 α} {a : α}
    (h : HeldAt bytes offset content) (hr : Reads r content a) :
    ∃ rest, r.run (bytes.drop offset.toInt.toNat) = (a, rest) ∧ bytes.drop offset.toInt.toNat = content ++ rest := by
  obtain ⟨rest, hrest⟩ := h.isPrefix
  exact ⟨rest, by rw [← hrest, hr rest], hrest.symm⟩

namespace PerfBuildId

/-- A section of build ids is read in as many rounds as it has entries. -/
theorem run_written (size : Int) (rest : QByteArray) : ∀ (entries : List Written) (fuel : Nat) (e : Entries),
    entries.length ≤ fuel → e.unread = entries.flatMap (Written.layout bigEndian) ++ rest →
    e.next + (entries.flatMap (Written.layout bigEndian)).length = size →
    Loop.run (more size) (body bigEndian) fuel e =
      some { next := size, buildIds := e.buildIds ++ entries.map (·.build), unread := rest }
  | [], fuel, e, _, hunread, hsize => by
    obtain ⟨next, buildIds, unread⟩ := e
    obtain rfl : next = size := by simpa using hsize
    obtain rfl : unread = rest := by simpa using hunread
    rw [Loop.run_of_not (by rw [more, decide_eq_false_iff_not]; exact Int.lt_irrefl next), List.map_nil, List.append_nil]
  | w :: entries, 0, e, hfuel, _, _ => absurd hfuel (Nat.not_succ_le_zero _)
  | w :: entries, fuel + 1, e, hfuel, hunread, hsize => by
    rw [List.flatMap_cons, List.append_assoc] at hunread
    rw [List.flatMap_cons, List.length_append, w.length_layout] at hsize
    have hpos : 0 < w.size.toNat := by
      rw [w.toNat_size]
      omega
    have hmore : more size e = true := by
      rw [more, decide_eq_true_eq]
      omega
    have hbody : body bigEndian e = ⟨e.next + w.size.toNat, e.buildIds ++ [w.build],
        entries.flatMap (Written.layout bigEndian) ++ rest⟩ := by
      rw [body, hunread, w.reads_readEntry bigEndian]
    have hnext : e.next + w.size.toNat + (entries.flatMap (Written.layout bigEndian)).length = size := by omega
    rw [Loop.run_succ hmore, hbody, run_written size rest entries fuel _ (Nat.le_of_succ_le_succ hfuel) rfl hnext,
      List.append_assoc]
    rfl

end PerfBuildId

namespace WrittenFeatures

open PerfFeatureSections (alone aloneBuildIds gather put)

variable {w : WrittenFeatures} {δ : Type} (E : Env δ) {fuel : Nat} {bytes arch : QByteArray}
  {l : List (Feature × PerfFileSection)}

/-- The section of each feature is where the table says, and a feature without a section is empty. -/
structure At (w : WrittenFeatures) (bigEndian : Bool) (bytes arch : QByteArray) (l : List (Feature × PerfFileSection)) :
    Prop where
  fits : w.Fits
  absent : ∀ feature, l.lookup feature = none → put w.written { arch } feature = { arch }
  unswapped : ∀ e ∈ w.eventDescs, e.attrs.Unswapped bigEndian
  size : ∀ feature place, l.lookup feature = some place → place.size.toInt = (w.layout bigEndian feature).length
  held : ∀ feature place, l.lookup feature = some place → HeldAt bytes place.offset (w.layout bigEndian feature)

theorem alone_eq (h : w.At E.bigEndian bytes arch l) (hparse : E.parseTracingData = PerfTracingData.parse)
    {feature : Feature} (hid : feature ≠ .buildId) :
    alone E bytes { arch } l feature = put w.written { arch } feature := by
  unfold alone
  cases hplace : l.lookup feature with
  | none => exact (h.absent feature hplace).symm
  | some place =>
    obtain ⟨rest, hrun, -⟩ := (h.held feature place hplace).run
      (reads_readFeature E h.fits hparse arch hid (h.size feature place hplace))
    rw [arrived_eq h.unswapped] at hrun
    exact congrArg Prod.fst hrun

theorem aloneBuildIds_eq (h : w.At E.bigEndian bytes arch l) (hfuel : w.buildIds.length ≤ fuel) :
    aloneBuildIds E fuel bytes { arch } l = some (w.buildIds.map (·.build)) := by
  unfold aloneBuildIds
  cases hplace : l.lookup .buildId with
  | none =>
    have habsent := h.absent .buildId hplace
    exact congrArg (fun s => some s.buildIds) habsent.symm
  | some place =>
    obtain ⟨rest, hrest⟩ := (h.held .buildId place hplace).isPrefix
    have hsize := h.size .buildId place hplace
    have hrun := PerfBuildId.run_written E.bigEndian place.size.toInt rest w.buildIds fuel ⟨0, [], _⟩ hfuel
      hrest.symm ((Int.zero_add _).trans hsize.symm)
    exact congrArg (Option.map fun x : PerfBuildId × QByteArray => x.1.buildIds)
      (congrArg (Option.map _) hrun)

/-- **The features of a file are those that were written**, wherever they are. -/
theorem gather_eq (h : w.At E.bigEndian bytes arch l) (hparse : E.parseTracingData = PerfTracingData.parse)
    (hfuel : w.buildIds.length ≤ fuel) : gather E fuel bytes { arch } l = some w.written := by
  have halone : ∀ feature, feature ≠ .buildId → alone E bytes { arch } l feature = put w.written { arch } feature :=
    fun _ => alone_eq E h hparse
  unfold gather
  rw [aloneBuildIds_eq E h hfuel]
  simp (disch := decide) only [halone]
  rfl

end WrittenFeatures

end PerfParser
