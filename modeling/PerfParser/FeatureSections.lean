import PerfParser.BuildIds
import PerfParser.PerfHeader
import PerfParser.ReadEvents
import PerfParser.HashOrder
/-!
# FeatureSections — the features of a file (`perffeatures.cpp`)

Behind the data of a file is a table that says where each feature is that the header announces.  The sections are read in
the order in which a `QHash` of them is iterated, which may be any.  Every section is read into a field of its own and from
a place of its own, so the order does not matter (`read_perm`), unless there is a section that cannot be sought to.
-/
namespace PerfParser

open QDataStream Reader

/-- A file that is open for reading. -/
structure QFile where
  bytes : QByteArray
  pos : Nat := 0
deriving DecidableEq, Repr, Inhabited

namespace QFile

/-- `QFile::seek`, which fails only for negative positions. -/
def seek (f : QFile) (pos : Int) : Option QFile := if pos < 0 then none else some { f with pos := pos.toNat }

/-- What is left to be read. -/
def unread (f : QFile) : QByteArray := f.bytes.drop f.pos

/-- The file when `unread` is left of it. -/
def readUpTo (f : QFile) (unread : QByteArray) : QFile := { f with pos := f.pos + (f.unread.length - unread.length) }

end QFile

namespace Layout

variable (bigEndian : Bool)

def i64 (n : Int64) : QByteArray := u64 bigEndian n.toUInt64

theorem reads_i64 (n : Int64) : Reads (QDataStream.i64 bigEndian) (i64 bigEndian n) n :=
  ((reads_u64 bigEndian n.toUInt64).map UInt64.toInt64).of_eq rfl (Int64.toInt64_toUInt64 n).symm

/-- Where a section of a file is. -/
def fileSection (s : PerfFileSection) : QByteArray := i64 bigEndian s.offset ++ i64 bigEndian s.size

theorem reads_fileSection (s : PerfFileSection) : Reads (PerfFileSection.read bigEndian) (fileSection bigEndian s) s :=
  (reads_i64 bigEndian s.offset).bind ((reads_i64 bigEndian s.size).map _)

end Layout

namespace PerfHeader

/-- `PerfHeader::Feature`. -/
inductive Feature
  | reserved | tracingData | buildId | hostname | osRelease | version | arch | nrCpus | cpuDesc | cpuId | totalMem
  | cmdline | eventDesc | cpuTopology | numaTopology | branchStack | pmuMappings | groupDesc | auxtrace | stat | cache
  | sampleTime | memTopology | clockid | dirFormat | bpfProgInfo | bpfBtf | compressed | cpuPmuCaps
deriving DecidableEq, Repr, Inhabited

namespace Feature

/-- The features below `LAST_FEATURE`. -/
def all : List Feature :=
  [reserved, tracingData, buildId, hostname, osRelease, version, arch, nrCpus, cpuDesc, cpuId, totalMem, cmdline,
    eventDesc, cpuTopology, numaTopology, branchStack, pmuMappings, groupDesc, auxtrace, stat, cache, sampleTime,
    memTopology, clockid, dirFormat, bpfProgInfo, bpfBtf, compressed, cpuPmuCaps]

/-- The number of the enumerator, which is that of its bit in the header. -/
def number (feature : Feature) : Nat := all.idxOf feature

theorem nodup_all : all.Nodup := by decide

end Feature

/-- The features that a header announces. -/
def announced (h : PerfHeader) : List Feature := Feature.all.filter fun feature => h.hasFeature feature.number

/-- `PerfHeader::featureOffset`. -/
def featureOffset (h : PerfHeader) : Int64 := h.data.offset + h.data.size

end PerfHeader

/-! ## Features -/

structure PerfNrCpus where
  online : UInt32 := 0
  available : UInt32 := 0
deriving DecidableEq, Repr, Inhabited

structure PerfCpuTopology where
  siblingCores : List QByteArray := []
  siblingThreads : List QByteArray := []
deriving DecidableEq, Repr, Inhabited

structure NumaNode where
  nodeId : UInt32 := 0
  memTotal : UInt64 := 0
  memFree : UInt64 := 0
  topology : QByteArray := []
deriving DecidableEq, Repr, Inhabited

structure Pmu where
  type : UInt32 := 0
  name : QByteArray := []
deriving DecidableEq, Repr, Inhabited

structure GroupDesc where
  name : QByteArray := []
  leaderIndex : UInt32 := 0
  numMembers : UInt32 := 0
deriving DecidableEq, Repr, Inhabited

structure PerfCompressed where
  version : UInt32 := 0
  type : UInt32 := 0
  level : UInt32 := 0
  ratio : UInt32 := 0
  mmapLen : UInt32 := 0
deriving DecidableEq, Repr, Inhabited

/-- `PerfFeatures` with all its members. -/
structure PerfFeatureSections extends PerfFeatures where
  hostName : QByteArray := []
  osRelease : QByteArray := []
  arch : QByteArray := []
  nrCpus : PerfNrCpus := {}
  cpuDesc : QByteArray := []
  cpuId : QByteArray := []
  totalMem : UInt64 := 0
  cmdline : PerfCmdline := {}
  cpuTopology : PerfCpuTopology := {}
  numaTopology : List NumaNode := []
  pmuMappings : List Pmu := []
  groupDescs : List GroupDesc := []
  compressed : PerfCompressed := {}
deriving DecidableEq, Repr, Inhabited

section Operators

variable (bigEndian : Bool)

def PerfNrCpus.read : Reader UInt8 PerfNrCpus := do
  let online ← u32 bigEndian
  let available ← u32 bigEndian
  pure { online, available }

/-- The second loop reads into the string that the first one has left. -/
def PerfCpuTopology.read (t : PerfCpuTopology) : Reader UInt8 PerfCpuTopology := do
  let numSiblings ← u32 bigEndian
  let cores ← PerfCmdline.readParts bigEndian numSiblings.toNat []
  let numSiblings ← u32 bigEndian
  let threads ← PerfCmdline.readParts bigEndian numSiblings.toNat (cores.getLastD [])
  pure { t with siblingCores := t.siblingCores ++ cores, siblingThreads := t.siblingThreads ++ threads }

/-- A loop over items with a string in each, which reads the strings of all of them into the same one. -/
def readItems {α : Type} (item : QByteArray → Reader UInt8 α) (string : α → QByteArray) :
    Nat → QByteArray → Reader UInt8 (List α)
  | 0, _ => pure []
  | n + 1, stringFeature => do
    let a ← item stringFeature
    let l ← readItems item string n (string a)
    pure (a :: l)

def NumaNode.read (stringFeature : QByteArray) : Reader UInt8 NumaNode := do
  let nodeId ← u32 bigEndian
  let memTotal ← u64 bigEndian
  let memFree ← u64 bigEndian
  let topology ← PerfStringFeature.read bigEndian stringFeature
  pure { nodeId, memTotal, memFree, topology }

def Pmu.read (stringFeature : QByteArray) : Reader UInt8 Pmu := do
  let type ← u32 bigEndian
  let name ← PerfStringFeature.read bigEndian stringFeature
  pure { type, name }

def GroupDesc.read (stringFeature : QByteArray) : Reader UInt8 GroupDesc := do
  let name ← PerfStringFeature.read bigEndian stringFeature
  let leaderIndex ← u32 bigEndian
  let numMembers ← u32 bigEndian
  pure { name, leaderIndex, numMembers }

def readNumaTopology : Reader UInt8 (List NumaNode) := do
  let numNodes ← u32 bigEndian
  readItems (NumaNode.read bigEndian) NumaNode.topology numNodes.toNat []

def readPmuMappings : Reader UInt8 (List Pmu) := do
  let numPmus ← u32 bigEndian
  readItems (Pmu.read bigEndian) Pmu.name numPmus.toNat []

def readGroupDescs : Reader UInt8 (List GroupDesc) := do
  let numGroups ← u32 bigEndian
  readItems (GroupDesc.read bigEndian) GroupDesc.name numGroups.toNat []

def PerfCompressed.read : Reader UInt8 PerfCompressed := do
  let version ← u32 bigEndian
  let type ← u32 bigEndian
  let level ← u32 bigEndian
  let ratio ← u32 bigEndian
  let mmapLen ← u32 bigEndian
  pure { version, type, level, ratio, mmapLen }

end Operators

/-! ## Sections -/

namespace PerfFeatureSections

open PerfHeader (Feature)

variable {δ : Type} (E : Env δ)

/-- The `switch` of `createFeature`, save for build ids. -/
def readFeature (feature : Feature) (size : Int64) (s : PerfFeatureSections) : Reader UInt8 PerfFeatureSections :=
  match feature with
  | .tracingData =>
    if size.toInt > 0xFFFFFFFF ∨ size < 0 then pure s
    else (fun tracingData => { s with tracingData }) <$>
      PerfData.readTracingData E { s.tracingData with size := size.toUInt64.toUInt32 }
  | .hostname => (fun hostName => { s with hostName }) <$> PerfStringFeature.read E.bigEndian s.hostName
  | .osRelease => (fun osRelease => { s with osRelease }) <$> PerfStringFeature.read E.bigEndian s.osRelease
  | .version => (fun version => { s with version }) <$> PerfStringFeature.read E.bigEndian s.version
  | .arch => (fun arch => { s with arch }) <$> PerfStringFeature.read E.bigEndian s.arch
  | .nrCpus => (fun nrCpus => { s with nrCpus }) <$> PerfNrCpus.read E.bigEndian
  | .cpuDesc => (fun cpuDesc => { s with cpuDesc }) <$> PerfStringFeature.read E.bigEndian s.cpuDesc
  | .cpuId => (fun cpuId => { s with cpuId }) <$> PerfStringFeature.read E.bigEndian s.cpuId
  | .totalMem => (fun totalMem => { s with totalMem }) <$> u64 E.bigEndian
  | .cmdline => (fun cmdline => { s with cmdline }) <$> s.cmdline.read E.bigEndian
  | .eventDesc => (fun e : PerfEventDesc => { s with eventDescs := e.eventDescs }) <$>
      PerfEventDesc.read E.bigEndian { eventDescs := s.eventDescs }
  | .cpuTopology => (fun cpuTopology => { s with cpuTopology }) <$> s.cpuTopology.read E.bigEndian
  | .numaTopology => (fun nodes => { s with numaTopology := s.numaTopology ++ nodes }) <$> readNumaTopology E.bigEndian
  | .pmuMappings => (fun pmus => { s with pmuMappings := s.pmuMappings ++ pmus }) <$> readPmuMappings E.bigEndian
  | .groupDesc => (fun descs => { s with groupDescs := s.groupDescs ++ descs }) <$> readGroupDescs E.bigEndian
  | .compressed => (fun compressed => { s with compressed }) <$> PerfCompressed.read E.bigEndian
  -- branch stacks don't really exist, and the others are not handled
  | _ => pure s

/-- The part of `createFeature` that reads, from what is left of the file.  None where the loop over the build ids goes on
for longer than there is fuel. -/
def readSection (fuel : Nat) (feature : Feature) (size : Int64) (s : PerfFeatureSections) (unread : QByteArray) :
    Option (PerfFeatureSections × QByteArray) :=
  match feature with
  | .buildId => (PerfBuildId.read E.bigEndian fuel { size := size.toInt, buildIds := s.buildIds } unread).map
      fun (b, unread) => ({ s with buildIds := b.buildIds }, unread)
  | feature => some ((readFeature E feature size s).run unread)

/-- `PerfFeatures::createFeature`.  A section that cannot be sought to is read from where the file is. -/
def createFeature (fuel : Nat) (x : PerfFeatureSections × QFile) (p : Feature × PerfFileSection) :
    Option (PerfFeatureSections × QFile) :=
  let f := (x.2.seek p.2.offset.toInt).getD x.2
  (readSection E fuel p.1 p.2.size x.1 f.unread).map fun (s, unread) => (s, f.readUpTo unread)

/-- The table behind the data, without the features that are announced but not present. -/
def readTable (bigEndian : Bool) : List Feature → Reader UInt8 (List (Feature × PerfFileSection))
  | [] => pure []
  | feature :: features => do
    let place ← PerfFileSection.read bigEndian
    let table ← readTable bigEndian features
    pure (if place.size > 0 then (feature, place) :: table else table)

/-- `PerfFeatures::read`, with what it returns.  The hash of the sections is iterated as `iterate` says. -/
def read (iterate : List (Feature × PerfFileSection) → List (Feature × PerfFileSection)) (fuel : Nat) (h : PerfHeader)
    (f : QFile) (s : PerfFeatureSections) : Option (Bool × PerfFeatureSections × QFile) :=
  match f.seek h.featureOffset.toInt with
  | none => some (false, s, f)
  | some f =>
    let (table, unread) := (readTable E.bigEndian h.announced).run f.unread
    ((iterate table).foldlM (createFeature E fuel) (s, f.readUpTo unread)).map fun x => (true, x)

/-! ## The loop over the build ids -/

section Fuel

open Loop

theorem grows_readSection (feature : Feature) (size : Int64) (s : PerfFeatureSections) (unread : QByteArray) :
    Grows fun fuel => readSection E fuel feature size s unread := by
  cases feature with
  | buildId => exact ((grows_run _).map _).map _
  | _ => exact fun _ _ _ _ h => h

theorem grows_createFeature (x : PerfFeatureSections × QFile) (p : Feature × PerfFileSection) :
    Grows fun fuel => createFeature E fuel x p := (grows_readSection E _ _ _ _).map _

theorem grows_read (iterate : List (Feature × PerfFileSection) → List (Feature × PerfFileSection)) (h : PerfHeader)
    (f : QFile) (s : PerfFeatureSections) : Grows fun fuel => read E iterate fuel h f s := by
  unfold read
  cases f.seek h.featureOffset.toInt with
  | none => exact fun _ _ _ _ h => h
  | some f => exact (grows_foldlM (grows_createFeature E) _ _).map _

/-- A section is read for ever if it has the build ids and the entries in the file do not add up to its size. -/
theorem createFeature_eq_none_iff (x : PerfFeatureSections × QFile) (p : Feature × PerfFileSection) :
    (∀ fuel, createFeature E fuel x p = none) ↔ p.1 = .buildId ∧
      PerfBuildId.announced E.bigEndian ((x.2.seek p.2.offset.toInt).getD x.2).unread < p.2.size.toInt := by
  obtain ⟨feature, place⟩ := p
  have hfile : (∀ fuel, createFeature E fuel x (feature, place) = none) ↔
      ∀ fuel, readSection E fuel feature place.size x.1 ((x.2.seek place.offset.toInt).getD x.2).unread = none :=
    forall_congr' fun _ => Option.map_eq_none_iff
  rw [hfile]
  cases feature with
  | buildId =>
    have hends := (PerfBuildId.ends_iff_loop E.bigEndian { size := place.size.toInt, buildIds := x.1.buildIds }
      ((x.2.seek place.offset.toInt).getD x.2).unread).trans (PerfBuildId.ends_iff ..)
    rw [and_iff_right rfl, ← Int.not_le, ← Int.zero_add (PerfBuildId.announced _ _ : Int), ← hends, PerfBuildId.Ends,
      not_exists]
    refine forall_congr' fun fuel => ?_
    rw [Bool.not_eq_true, Option.isSome_eq_false_iff, Option.isNone_iff_eq_none]
    exact Option.map_eq_none_iff
  | _ => exact iff_of_false (fun h => Option.some_ne_none _ (h 0)) fun h => by simp at h

/-- The loop over the build ids never ends: their section is reached, and the entries in the file do not add up to its
size. -/
def GoesOn (iterate : List (Feature × PerfFileSection) → List (Feature × PerfFileSection)) (h : PerfHeader) (f : QFile)
    (s : PerfFeatureSections) : Prop :=
  ∃ (f' : QFile) (pre : List (Feature × PerfFileSection)) (place : PerfFileSection)
      (post : List (Feature × PerfFileSection)) (x : PerfFeatureSections × QFile), f.seek h.featureOffset.toInt = some f' ∧
    iterate ((readTable E.bigEndian h.announced).run f'.unread).1 = pre ++ (.buildId, place) :: post ∧
    Settles (fun fuel => pre.foldlM (createFeature E fuel)
      (s, f'.readUpTo ((readTable E.bigEndian h.announced).run f'.unread).2)) x ∧
    PerfBuildId.announced E.bigEndian ((x.2.seek place.offset.toInt).getD x.2).unread < place.size.toInt

/-- **The features of a file are read for ever if and only if the loop over the build ids never ends.** -/
theorem read_eq_none_iff (iterate : List (Feature × PerfFileSection) → List (Feature × PerfFileSection)) (h : PerfHeader)
    (f : QFile) (s : PerfFeatureSections) : (∀ fuel, read E iterate fuel h f s = none) ↔ GoesOn E iterate h f s := by
  unfold read
  cases hseek : f.seek h.featureOffset.toInt with
  | none =>
    refine iff_of_false (fun h => nomatch h 0) ?_
    rintro ⟨f', pre, place, post, x, hf', -⟩
    rw [hseek] at hf'
    cases hf'
  | some f' =>
    have hmap : (∀ fuel, ((iterate ((readTable E.bigEndian h.announced).run f'.unread).1).foldlM (createFeature E fuel)
        (s, f'.readUpTo ((readTable E.bigEndian h.announced).run f'.unread).2)).map (fun x => (true, x)) = none) ↔ _ :=
      (forall_congr' fun _ => Option.map_eq_none_iff).trans (foldlM_eq_none_iff (grows_createFeature E) _ _)
    refine hmap.trans ?_
    constructor
    · rintro ⟨pre, ⟨feature, place⟩, post, x, htable, hpre, hnone⟩
      obtain ⟨rfl, hless⟩ := (createFeature_eq_none_iff E x _).1 hnone
      exact ⟨f', pre, place, post, x, hseek, htable, hpre, hless⟩
    · rintro ⟨f'', pre, place, post, x, hf', htable, hpre, hless⟩
      cases hseek.symm.trans hf'
      exact ⟨pre, (.buildId, place), post, x, htable, hpre, (createFeature_eq_none_iff E x _).2 ⟨rfl, hless⟩⟩

end Fuel

/-! ## Any order -/

section Order

variable (fuel : Nat) (bytes : QByteArray) (s : PerfFeatureSections)

/-- What a feature makes of `s` where it is read, alone. -/
def alone (l : List (Feature × PerfFileSection)) (feature : Feature) : PerfFeatureSections :=
  match l.lookup feature with
  | none => s
  | some place => ((readFeature E feature place.size s).run (bytes.drop place.offset.toInt.toNat)).1

def aloneBuildIds (l : List (Feature × PerfFileSection)) : Option (List BuildId) :=
  match l.lookup .buildId with
  | none => some s.buildIds
  | some place => (PerfBuildId.read E.bigEndian fuel { size := place.size.toInt, buildIds := s.buildIds }
      (bytes.drop place.offset.toInt.toNat)).map fun x => x.1.buildIds

/-- What the features make of `s`, each read alone. -/
def gather (l : List (Feature × PerfFileSection)) : Option PerfFeatureSections :=
  (aloneBuildIds E fuel bytes s l).map fun buildIds =>
    { tracingData := (alone E bytes s l .tracingData).tracingData
      eventDescs := (alone E bytes s l .eventDesc).eventDescs
      version := (alone E bytes s l .version).version
      buildIds := buildIds
      hostName := (alone E bytes s l .hostname).hostName
      osRelease := (alone E bytes s l .osRelease).osRelease
      arch := (alone E bytes s l .arch).arch
      nrCpus := (alone E bytes s l .nrCpus).nrCpus
      cpuDesc := (alone E bytes s l .cpuDesc).cpuDesc
      cpuId := (alone E bytes s l .cpuId).cpuId
      totalMem := (alone E bytes s l .totalMem).totalMem
      cmdline := (alone E bytes s l .cmdline).cmdline
      cpuTopology := (alone E bytes s l .cpuTopology).cpuTopology
      numaTopology := (alone E bytes s l .numaTopology).numaTopology
      pmuMappings := (alone E bytes s l .pmuMappings).pmuMappings
      groupDescs := (alone E bytes s l .groupDesc).groupDescs
      compressed := (alone E bytes s l .compressed).compressed }

theorem gather_congr {l l' : List (Feature × PerfFileSection)} (h : ∀ feature, l.lookup feature = l'.lookup feature) :
    gather E fuel bytes s l = gather E fuel bytes s l' := by
  unfold gather aloneBuildIds alone
  simp only [h]

section Cons

variable {l : List (Feature × PerfFileSection)} {feature : Feature} (place : PerfFileSection)

theorem alone_of_none (h : l.lookup feature = none) : alone E bytes s l feature = s := by rw [alone, h]

theorem alone_cons_self : alone E bytes s ((feature, place) :: l) feature =
    ((readFeature E feature place.size s).run (bytes.drop place.offset.toInt.toNat)).1 := by
  rw [alone, List.lookup_cons_self]

theorem alone_cons_of_ne {feature' : Feature} (h : feature' ≠ feature) :
    alone E bytes s ((feature, place) :: l) feature' = alone E bytes s l feature' := by
  rw [alone, List.lookup_cons, beq_false_of_ne h, alone]

theorem aloneBuildIds_cons_of_ne (h : .buildId ≠ feature) :
    aloneBuildIds E fuel bytes s ((feature, place) :: l) = aloneBuildIds E fuel bytes s l := by
  rw [aloneBuildIds, List.lookup_cons, beq_false_of_ne h, aloneBuildIds]

theorem aloneBuildIds_cons_self : aloneBuildIds E fuel bytes s ((.buildId, place) :: l) =
    (PerfBuildId.read E.bigEndian fuel { size := place.size.toInt, buildIds := s.buildIds }
      (bytes.drop place.offset.toInt.toNat)).map fun x => x.1.buildIds := by
  rw [aloneBuildIds, List.lookup_cons_self]

theorem aloneBuildIds_of_none (h : l.lookup .buildId = none) : aloneBuildIds E fuel bytes s l = some s.buildIds := by
  rw [aloneBuildIds, h]

/-- **A feature that has not been read yet** finds its field as it was, and leaves the others as they are. -/
theorem gather_cons (h : l.lookup feature = none) :
    gather E fuel bytes s ((feature, place) :: l) = (gather E fuel bytes s l).bind fun s' =>
      (readSection E fuel feature place.size s' (bytes.drop place.offset.toInt.toNat)).map Prod.fst := by
  by_cases hid : feature = .buildId
  · subst hid
    simp (disch := decide) only [gather, alone_cons_of_ne, aloneBuildIds_cons_self, aloneBuildIds_of_none E fuel bytes s h,
      Option.map_some, Option.bind_some, readSection, Option.map_map]
    rfl
  · rw [gather, aloneBuildIds_cons_of_ne E fuel bytes s place (Ne.symm hid), gather, Option.map_eq_bind,
      Option.map_eq_bind, Option.bind_assoc]
    refine congrArg _ (funext fun buildIds => ?_)
    have halone := alone_of_none E bytes s h
    cases feature with
    | buildId => exact absurd rfl hid
    | tracingData =>
      simp (disch := decide) only [alone_cons_of_ne, alone_cons_self, halone, Function.comp, Option.bind_some, readSection,
        Option.map_some, readFeature]
      split <;> rfl
    | _ =>
      simp (disch := decide) only [alone_cons_of_ne, alone_cons_self, halone, Function.comp, Option.bind_some, readSection,
        Option.map_some, readFeature, run_map, run_pure]

end Cons

/-- A section that is read where it is, alone. -/
def readPlace (s : PerfFeatureSections) (p : Feature × PerfFileSection) : Option PerfFeatureSections :=
  (readSection E fuel p.1 p.2.size s (bytes.drop p.2.offset.toInt.toNat)).map Prod.fst

/-- Sections of features that have not been read yet. -/
theorem gather_reverse_append : ∀ {l l₀ : List (Feature × PerfFileSection)}, (l.map Prod.fst).Nodup →
    (∀ p ∈ l, l₀.lookup p.1 = none) → gather E fuel bytes s (l.reverse ++ l₀) =
      (gather E fuel bytes s l₀).bind fun s' => l.foldlM (readPlace E fuel bytes) s'
  | [], l₀, _, _ => (Option.bind_fun_some (gather E fuel bytes s l₀)).symm
  | p :: l, l₀, hnodup, hnew => by
    rw [List.map_cons, List.nodup_cons] at hnodup
    have hnew' : ∀ q ∈ l, (p :: l₀).lookup q.1 = none := fun q hq => by
      have hne : q.1 ≠ p.1 := fun heq => hnodup.1 (heq ▸ List.mem_map_of_mem hq)
      rw [List.lookup_cons, beq_false_of_ne hne]
      exact hnew q (List.mem_cons_of_mem p hq)
    rw [List.reverse_cons, List.append_assoc, List.singleton_append, gather_reverse_append hnodup.2 hnew',
      gather_cons E fuel bytes s p.2 (hnew p List.mem_cons_self), Option.bind_assoc]
    rfl

/-- **Sections of distinct features make what each of them makes alone.** -/
theorem foldlM_readPlace_eq {l : List (Feature × PerfFileSection)} (hnodup : (l.map Prod.fst).Nodup) :
    l.foldlM (readPlace E fuel bytes) s = gather E fuel bytes s l := by
  have hall := @gather_reverse_append δ E fuel bytes s l [] hnodup fun _ _ => rfl
  rw [List.append_nil] at hall
  refine hall.symm.trans (gather_congr E fuel bytes s fun feature => lookup_perm hnodup l.reverse_perm feature)

/-- **Sections of distinct features may be read in any order.** -/
theorem foldlM_readPlace_perm {l l' : List (Feature × PerfFileSection)} (hnodup : (l.map Prod.fst).Nodup)
    (hperm : l'.Perm l) : l'.foldlM (readPlace E fuel bytes) s = l.foldlM (readPlace E fuel bytes) s := by
  have hnodup' : (l'.map Prod.fst).Nodup := (hperm.map Prod.fst).nodup_iff.2 hnodup
  rw [foldlM_readPlace_eq E fuel bytes s hnodup, foldlM_readPlace_eq E fuel bytes s hnodup']
  exact gather_congr E fuel bytes s fun feature => lookup_perm hnodup hperm feature

/-- A section that can be sought to is read where it is. -/
theorem createFeature_fst {x : PerfFeatureSections × QFile} (hx : x.2.bytes = bytes) {p : Feature × PerfFileSection}
    (hp : 0 ≤ p.2.offset.toInt) : (createFeature E fuel x p).map Prod.fst = readPlace E fuel bytes x.1 p ∧
      ∀ y, createFeature E fuel x p = some y → y.2.bytes = bytes := by
  have hseek : x.2.seek p.2.offset.toInt = some { x.2 with pos := p.2.offset.toInt.toNat } := if_neg (by omega)
  unfold createFeature readPlace
  rw [hseek, Option.getD_some, Option.map_map, ← hx]
  refine ⟨rfl, fun y hy => ?_⟩
  obtain ⟨r, -, rfl⟩ := Option.map_eq_some_iff.1 hy
  rfl

theorem foldlM_createFeature : ∀ {l : List (Feature × PerfFileSection)} {x : PerfFeatureSections × QFile},
    x.2.bytes = bytes → (∀ p ∈ l, 0 ≤ p.2.offset.toInt) →
      (l.foldlM (createFeature E fuel) x).map Prod.fst = l.foldlM (readPlace E fuel bytes) x.1
  | [], _, _, _ => rfl
  | p :: l, x, hx, hl => by
    obtain ⟨hfst, hbytes⟩ := createFeature_fst E fuel bytes hx (hl p List.mem_cons_self)
    rw [List.foldlM_cons, List.foldlM_cons, ← hfst]
    cases hy : createFeature E fuel x p with
    | none => rfl
    | some y => exact foldlM_createFeature (hbytes y hy) (fun q hq => hl q (List.mem_cons_of_mem p hq))

end Order

theorem features_readTable (bigEndian : Bool) : ∀ (features : List Feature) (unread : QByteArray),
    (((readTable bigEndian features).run unread).1.map Prod.fst).Sublist features
  | [], _ => List.Sublist.refl _
  | feature :: features, unread => by
    have ih := features_readTable bigEndian features ((PerfFileSection.read bigEndian).run unread).2
    simp only [readTable, run_bind, run_pure]
    split
    · exact ih.cons_cons feature
    · exact ih.cons feature

/-- The table of the features of a file. -/
def table (h : PerfHeader) (f : QFile) : List (Feature × PerfFileSection) :=
  ((readTable E.bigEndian h.announced).run (f.bytes.drop h.featureOffset.toInt.toNat)).1

theorem nodup_table (h : PerfHeader) (f : QFile) : ((table E h f).map Prod.fst).Nodup :=
  (PerfHeader.Feature.nodup_all.filter _).sublist (features_readTable E.bigEndian _ _)

/-- What the features of a file are, read in the order of the table. -/
theorem read_fst {iterate : List (Feature × PerfFileSection) → List (Feature × PerfFileSection)}
    (hiterate : ∀ l, (iterate l).Perm l) (fuel : Nat) (h : PerfHeader) (f : QFile) (s : PerfFeatureSections)
    (hoffset : 0 ≤ h.featureOffset.toInt) (hoffsets : ∀ p ∈ table E h f, 0 ≤ p.2.offset.toInt) :
    (read E iterate fuel h f s).map (fun x => (x.1, x.2.1)) =
      ((table E h f).foldlM (readPlace E fuel f.bytes) s).map fun s => (true, s) := by
  have hseek : f.seek h.featureOffset.toInt = some { f with pos := h.featureOffset.toInt.toNat } := if_neg (by omega)
  have hperm := hiterate (table E h f)
  have hread := foldlM_createFeature E fuel f.bytes (l := iterate (table E h f))
    (x := (s, QFile.readUpTo { f with pos := h.featureOffset.toInt.toNat }
      ((readTable E.bigEndian h.announced).run (f.bytes.drop h.featureOffset.toInt.toNat)).2)) rfl
    (fun p hp => hoffsets p (hperm.mem_iff.1 hp))
  unfold read
  rw [hseek]
  dsimp only
  rw [← foldlM_readPlace_perm E fuel f.bytes s (nodup_table E h f) hperm, ← hread, Option.map_map, Option.map_map]
  rfl

/-- **The features of a file do not depend on the order in which their sections are read**, where every section can be
sought to. -/
theorem read_perm {iterate iterate' : List (Feature × PerfFileSection) → List (Feature × PerfFileSection)}
    (hiterate : ∀ l, (iterate l).Perm l) (hiterate' : ∀ l, (iterate' l).Perm l) (fuel : Nat) (h : PerfHeader)
    (f : QFile) (s : PerfFeatureSections) (hoffsets : ∀ p ∈ table E h f, 0 ≤ p.2.offset.toInt) :
    (read E iterate fuel h f s).map (fun x => (x.1, x.2.1)) =
      (read E iterate' fuel h f s).map (fun x => (x.1, x.2.1)) := by
  by_cases hoffset : 0 ≤ h.featureOffset.toInt
  · rw [read_fst E hiterate fuel h f s hoffset hoffsets, read_fst E hiterate' fuel h f s hoffset hoffsets]
  · have hseek : f.seek h.featureOffset.toInt = none := if_pos (by omega)
    unfold read
    rw [hseek]

/-- A host name and an architecture behind their table, read in either order. -/
theorem read_perm_two :
    let bytes : QByteArray := [9, 33, 0, 0, 0, 0, 0, 0, 0, 8, 0, 0, 0, 0, 0, 0, 0] ++
      [41, 0, 0, 0, 0, 0, 0, 0, 8, 0, 0, 0, 0, 0, 0, 0] ++ [4, 0, 0, 0, 104, 111, 115, 116, 4, 0, 0, 0, 97, 114, 99, 104]
    let h : PerfHeader := { data := ⟨0, 1⟩, features := [0x48, 0, 0, 0] }
    (read (PerfData.plainEnv false) id 1 h ⟨bytes, 0⟩ {}).map (fun x => (x.1, x.2.1)) =
      (read (PerfData.plainEnv false) List.reverse 1 h ⟨bytes, 0⟩ {}).map fun x => (x.1, x.2.1) :=
  read_perm _ (fun _ => .refl _) List.reverse_perm 1 _ _ _ (by decide)

end PerfFeatureSections

end PerfParser
