import PerfParser.SymbolCaches
/-!
# SymbolRegions — cached locations of regions without a file

The locations of all processes are cached by the path of a mapping and the address relative to its start.  Regions
without a file share their paths, `//anon` above all: a lookup is answered with the location of whatever lookup had its
key first (`own_of_unshared`).
-/
namespace PerfParser

open History (Always)

/-! ## Runs -/

/-- What happens to the symbol tables of the processes. -/
inductive FrameOp
  | registerElf (mmap : PerfRecordMmap) (buildId : QByteArray)
  | initAfterFork (childPid parentPid : Int32)
  | dropSymbolTable (pid : Int32)
  | updatePerfMap (pid : Int32)
  | clearCache (pid : Int32)
  | lookupFrame (pid : Int32) (ip : UInt64) (isKernel : Bool)
deriving DecidableEq, Repr

/-- A call of `cache` for a process, as it is logged. -/
structure StoredFrame extends Stored where
  pid : Int32
deriving DecidableEq, Repr

/-- The symbol tables, and the log of what the lookups cached. -/
structure Frames where
  tables : SymbolTables := {}
  stored : List StoredFrame := []

/-- The call cached its location under this path and this relative address. -/
def StoredFrame.Under (s : StoredFrame) (path : QByteArray) (relAddr : UInt64) : Prop :=
  s.elf.isValid = true ∧ s.elf.originalPath = path ∧ s.elf.relativeAddress s.ip = relAddr

instance (s : StoredFrame) (path : QByteArray) (relAddr : UInt64) : Decidable (s.Under path relAddr) :=
  inferInstanceAs (Decidable (_ ∧ _))

namespace Frames

variable (H : Host)

/-- The mapping that a lookup finds. -/
def elf (f : Frames) (pid : Int32) (ip : UInt64) : ElfInfo := (f.tables.table pid).elfs.findElf ip

/-- What the address cache has for a lookup. -/
def cached (f : Frames) (pid : Int32) (ip : UInt64) : AddressCacheEntry :=
  f.tables.resolver.addressCache.find (f.elf pid ip) ip (f.tables.table pid).invalidAddressCache

/-- The location that a lookup returns. -/
def locationId (f : Frames) (pid : Int32) (ip : UInt64) (isKernel : Bool) : Int :=
  (f.tables.lookupFrame H pid ip isKernel).1.locationId

def apply (f : Frames) : FrameOp → Frames
  | .registerElf mmap buildId => { f with tables := f.tables.registerElf H mmap buildId }
  | .initAfterFork childPid parentPid => { f with tables := f.tables.initAfterFork childPid parentPid }
  | .dropSymbolTable pid => { f with tables := f.tables.dropSymbolTable pid }
  | .updatePerfMap pid => { f with tables := f.tables.set pid ((f.tables.table pid).updatePerfMap H) }
  | .clearCache pid => { f with tables := f.tables.set pid (f.tables.table pid).clearCache }
  | .lookupFrame pid ip isKernel =>
    let (entry, tables) := f.tables.lookupFrame H pid ip isKernel
    let stored := { elf := f.elf pid ip, ip := ip, entry := entry, pid := pid }
    { tables := tables, stored := if (f.cached pid ip).isValid then f.stored else f.stored ++ [stored] }

def run (ops : List FrameOp) : Frames := ops.foldl (apply H) {}

theorem run_snoc (ops : List FrameOp) (op : FrameOp) : run H (ops ++ [op]) = (run H ops).apply H op := by
  rw [run, List.foldl_append, List.foldl_cons, List.foldl_nil, run]

/-- Cached for another address, in another region of the same path that has no file either. -/
structure Foreign (f : Frames) (pid : Int32) (ip : UInt64) (s : StoredFrame) : Prop where
  valid : s.elf.isValid = true
  noFile : s.elf.isFile = false
  path : s.elf.originalPath = (f.elf pid ip).originalPath
  region : s.pid ≠ pid ∨ s.elf.addr ≠ (f.elf pid ip).addr ∨ s.elf.length ≠ (f.elf pid ip).length
  address : s.ip ≠ ip

instance (f : Frames) (pid : Int32) (ip : UInt64) (s : StoredFrame) : Decidable (f.Foreign pid ip s) :=
  decidable_of_iff (s.elf.isValid = true ∧ s.elf.isFile = false ∧ s.elf.originalPath = (f.elf pid ip).originalPath ∧
    (s.pid ≠ pid ∨ s.elf.addr ≠ (f.elf pid ip).addr ∨ s.elf.length ≠ (f.elf pid ip).length) ∧ s.ip ≠ ip)
    ⟨fun h => ⟨h.1, h.2.1, h.2.2.1, h.2.2.2.1, h.2.2.2.2⟩, fun h => ⟨h.valid, h.noFile, h.path, h.region, h.address⟩⟩

/-- A lookup in a region without a file returns no location that was cached for a foreign address. -/
def Own (pre : List FrameOp) : FrameOp → Prop
  | .lookupFrame pid ip isKernel =>
    ((run H pre).elf pid ip).isValid = true → ((run H pre).elf pid ip).isFile = false →
      ∀ s ∈ (run H pre).stored, (run H pre).Foreign pid ip s →
        s.entry.locationId ≠ (run H pre).locationId H pid ip isKernel
  | _ => True

/-- The process and the address of the first lookup with the key of a lookup, itself if it is the first. -/
def first (f : Frames) (pid : Int32) (ip : UInt64) : Int32 × UInt64 :=
  match f.stored.find? (fun s => s.Under (f.elf pid ip).originalPath ((f.elf pid ip).relativeAddress ip)) with
  | some s => (s.pid, s.ip)
  | none => (pid, ip)

/-- The first lookup with the key was not at a foreign address: none was cached for its process and its address, up to
the bit that tells Thumb code on ARM. -/
def Unshared (pre : List FrameOp) : FrameOp → Prop
  | .lookupFrame pid ip _ =>
    ((run H pre).elf pid ip).isValid = true → ((run H pre).elf pid ip).isFile = false →
      ∀ s ∈ (run H pre).stored, (run H pre).Foreign pid ip s → s.pid = ((run H pre).first pid ip).1 →
        PerfAddressCache.symbolAddress s.ip H.sources.isArmArch ≠
          PerfAddressCache.symbolAddress ((run H pre).first pid ip).2 H.sources.isArmArch
  | _ => True

instance (pre : List FrameOp) : ∀ op, Decidable (Own H pre op)
  | .lookupFrame _ _ _ => inferInstanceAs (Decidable (_ → _ → ∀ s ∈ (run H pre).stored, _))
  | .registerElf _ _ => isTrue trivial
  | .initAfterFork _ _ => isTrue trivial
  | .dropSymbolTable _ => isTrue trivial
  | .updatePerfMap _ => isTrue trivial
  | .clearCache _ => isTrue trivial

instance (pre : List FrameOp) : ∀ op, Decidable (Unshared H pre op)
  | .lookupFrame _ _ _ => inferInstanceAs (Decidable (_ → _ → ∀ s ∈ (run H pre).stored, _))
  | .registerElf _ _ => isTrue trivial
  | .initAfterFork _ _ => isTrue trivial
  | .dropSymbolTable _ => isTrue trivial
  | .updatePerfMap _ => isTrue trivial
  | .clearCache _ => isTrue trivial

/-! ## The cache -/

/-- The tables are those of their processes, and the cache has the first location that was cached under each key: a
location of the address it was cached for. -/
structure Sound (f : Frames) : Prop where
  pids : ∀ pid, (f.tables.table pid).pid = pid
  located : ∀ s ∈ f.stored, ∃ l, f.tables.resolver.locations.get? s.entry.locationId = some l ∧
    l.address = PerfAddressCache.symbolAddress s.ip H.sources.isArmArch ∧ l.pid = s.pid.toUInt32
  entries : ∀ path relAddr, f.tables.resolver.addressCache.entryAt path relAddr =
    (f.stored.find? (fun s => s.Under path relAddr)).map (fun s => s.entry)

variable {H} {f : Frames}

theorem Sound.valid (h : f.Sound H) {s : StoredFrame} (hs : s ∈ f.stored) : s.entry.isValid = true := by
  obtain ⟨l, hl, -⟩ := h.located s hs
  obtain ⟨i, hi, -⟩ := Interner.get?_lt hl
  simp [AddressCacheEntry.isValid, hi]

theorem Sound.cached_eq (h : f.Sound H) {pid : Int32} {ip : UInt64} (hvalid : (f.elf pid ip).isValid = true) :
    f.cached pid ip =
      ((f.stored.find? (fun s => s.Under (f.elf pid ip).originalPath ((f.elf pid ip).relativeAddress ip))).map
        (fun s => s.entry)).getD {} := by
  rw [Frames.cached, PerfAddressCache.find_of_valid hvalid, h.entries]

/-- What a lookup in the table of its process returns and leaves behind. -/
def result (H : Host) (f : Frames) (pid : Int32) (ip : UInt64) (isKernel : Bool) :
    AddressCacheEntry × Resolver × PerfSymbolTable :=
  (f.tables.table pid).lookupFrame H.sources (PerfSymbolTable.module H) f.tables.resolver ip isKernel

theorem apply_lookupFrame (pid : Int32) (ip : UInt64) (isKernel : Bool) :
    f.apply H (.lookupFrame pid ip isKernel) =
      { tables := { f.tables with resolver := (f.result H pid ip isKernel).2.1 }.set pid (f.result H pid ip isKernel).2.2
        stored := if (f.cached pid ip).isValid then f.stored else
          f.stored ++ [{ elf := f.elf pid ip, ip := ip, entry := (f.result H pid ip isKernel).1, pid := pid }] } := rfl

theorem locationId_eq (pid : Int32) (ip : UInt64) (isKernel : Bool) :
    f.locationId H pid ip isKernel = (f.result H pid ip isKernel).1.locationId := rfl

theorem result_hit {pid : Int32} {ip : UInt64} (isKernel : Bool) (h : (f.cached pid ip).isValid = true) :
    f.result H pid ip isKernel = (f.cached pid ip, f.tables.resolver, f.tables.table pid) :=
  PerfSymbolTable.lookupFrame_hit h

theorem result_miss {pid : Int32} {ip : UInt64} (isKernel : Bool) (h : (f.cached pid ip).isValid = false) :
    PerfSymbolTable.Missed H.sources (PerfSymbolTable.module H) f.tables.resolver (f.tables.table pid) ip
      (f.result H pid ip isKernel) := PerfSymbolTable.lookupFrame_miss h

/-! The tables stay those of their processes. -/

theorem pid_set {s : SymbolTables} (h : ∀ pid, (s.table pid).pid = pid) {pid : Int32} {t : PerfSymbolTable}
    (ht : t.pid = pid) (pid' : Int32) : ((s.set pid t).table pid').pid = pid' := by
  rw [SymbolTables.table_set]
  by_cases hpid : pid' = pid
  · rw [if_pos hpid, ht, hpid]
  · rw [if_neg hpid, h]

theorem pid_symbolTable {s : SymbolTables} (h : ∀ pid, (s.table pid).pid = pid) (pid pid' : Int32) :
    ((s.symbolTable pid).table pid').pid = pid' := by
  rw [SymbolTables.table_symbolTable, h]

theorem Sound.withTables (h : f.Sound H) {tables : SymbolTables} (hpids : ∀ pid, (tables.table pid).pid = pid)
    (hresolver : tables.resolver = f.tables.resolver) : ({ f with tables := tables } : Frames).Sound H := by
  refine ⟨hpids, ?_, ?_⟩
  · rw [hresolver]
    exact h.located
  · rw [hresolver]
    exact h.entries

/-! ## Lookups -/

/-- **A lookup returns a location of the first lookup with its key.** -/
theorem Sound.first_locationId (h : f.Sound H) {pid : Int32} {ip : UInt64} (isKernel : Bool)
    (hvalid : (f.elf pid ip).isValid = true) :
    ∃ l, (f.result H pid ip isKernel).2.1.locations.get? (f.locationId H pid ip isKernel) = some l ∧
      l.address = PerfAddressCache.symbolAddress (f.first pid ip).2 H.sources.isArmArch ∧
      l.pid = (f.first pid ip).1.toUInt32 := by
  have hcached := h.cached_eq hvalid
  unfold first
  rw [locationId_eq]
  cases hfind : f.stored.find?
      (fun s => s.Under (f.elf pid ip).originalPath ((f.elf pid ip).relativeAddress ip)) with
  | some s =>
    have hs := List.mem_of_find?_eq_some hfind
    rw [hfind, Option.map_some, Option.getD_some] at hcached
    rw [result_hit isKernel (by rw [hcached]; exact h.valid hs), hcached]
    exact h.located s hs
  | none =>
    rw [hfind] at hcached
    have hmiss := result_miss (H := H) isKernel (by rw [hcached]; rfl : (f.cached pid ip).isValid = false)
    obtain ⟨l, hl, haddress, hpid⟩ := hmiss.location
    rw [(PerfSymbolTable.module_frame _ _ _).1, h.pids] at hpid
    exact ⟨l, hl, haddress, hpid⟩

/-- A lookup that is not answered from the cache caches its location under its own key only, which is new. -/
theorem Sound.entries_miss (h : f.Sound H) {pid : Int32} {ip : UInt64} (isKernel : Bool)
    (hcached : (f.cached pid ip).isValid = false) (path : QByteArray) (relAddr : UInt64) :
    (f.result H pid ip isKernel).2.1.addressCache.entryAt path relAddr =
      ((f.stored ++ [({ elf := f.elf pid ip, ip := ip, entry := (f.result H pid ip isKernel).1, pid := pid } :
        StoredFrame)]).find? (fun s => s.Under path relAddr)).map (fun s => s.entry) := by
  have hmiss := result_miss (H := H) isKernel hcached
  obtain ⟨c, hc, hstore⟩ := hmiss.cached
  have haddressCache := congrArg Prod.fst hstore
  have hentry : c.entryAt path relAddr = f.tables.resolver.addressCache.entryAt path relAddr := by
    rw [PerfAddressCache.entryAt, hc, PerfAddressCache.entryAt]
  dsimp only at haddressCache
  rw [show (f.tables.table pid).elfs.findElf ip = f.elf pid ip from rfl] at haddressCache
  rw [← haddressCache, List.find?_append, List.find?_singleton]
  cases hvalid : (f.elf pid ip).isValid with
  | false =>
    rw [PerfAddressCache.store_of_invalid hvalid, hentry, h.entries, if_neg (by simp [StoredFrame.Under, hvalid]),
      Option.or_none]
  | true =>
    rw [PerfAddressCache.entryAt_store_of_valid hvalid, hentry, h.entries]
    by_cases hkey : path = (f.elf pid ip).originalPath ∧ relAddr = (f.elf pid ip).relativeAddress ip
    · obtain ⟨rfl, rfl⟩ := hkey
      have hnone : f.stored.find?
          (fun s => s.Under (f.elf pid ip).originalPath ((f.elf pid ip).relativeAddress ip)) = none := by
        cases hfind : f.stored.find?
            (fun s => s.Under (f.elf pid ip).originalPath ((f.elf pid ip).relativeAddress ip)) with
        | none => rfl
        | some s =>
          rw [h.cached_eq hvalid, hfind, Option.map_some, Option.getD_some,
            h.valid (List.mem_of_find?_eq_some hfind)] at hcached
          cases hcached
      rw [if_pos ⟨rfl, rfl⟩, hnone, Option.none_or, if_pos (by simp [StoredFrame.Under, hvalid])]
      rfl
    · have hunder : ¬StoredFrame.Under
        { elf := f.elf pid ip, ip := ip, entry := (f.result H pid ip isKernel).1, pid := pid }
          path relAddr := fun hunder => hkey ⟨hunder.2.1.symm, hunder.2.2.symm⟩
      rw [if_neg hkey, if_neg (by rw [decide_eq_true_eq]; exact hunder), Option.or_none]

/-- A lookup leaves all of this in place. -/
theorem Sound.lookupFrame (h : f.Sound H) (pid : Int32) (ip : UInt64) (isKernel : Bool) :
    (f.apply H (.lookupFrame pid ip isKernel)).Sound H := by
  rw [apply_lookupFrame]
  cases hcached : (f.cached pid ip).isValid with
  | true =>
    rw [result_hit isKernel hcached]
    exact h.withTables (pid_set h.pids (h.pids pid)) rfl
  | false =>
    have hmiss := result_miss (H := H) isKernel hcached
    have hpid := (congrArg PerfSymbolTable.pid hmiss.table).trans
      ((PerfSymbolTable.module_frame _ ip _).1.trans (h.pids pid))
    refine ⟨pid_set (s := { f.tables with resolver := _ }) h.pids hpid, ?_, fun path relAddr => ?_⟩
    · intro s hs
      rcases List.mem_append.1 hs with hs | hs
      · obtain ⟨l, hl, hkey⟩ := h.located s hs
        exact ⟨l, hmiss.sends.locations_le.get? hl, hkey⟩
      · rw [List.mem_singleton.1 hs]
        obtain ⟨l, hl, haddress, hlpid⟩ := hmiss.location
        rw [(PerfSymbolTable.module_frame _ _ _).1, h.pids] at hlpid
        exact ⟨l, hl, haddress, hlpid⟩
    · exact h.entries_miss isKernel hcached path relAddr

theorem Sound.apply (h : f.Sound H) (op : FrameOp) : (f.apply H op).Sound H := by
  cases op with
  | registerElf mmap buildId =>
    refine h.withTables (fun pid => ?_) (f.tables.registerElf_resolver mmap buildId)
    exact pid_set (pid_symbolTable h.pids mmap.pid)
      ((PerfSymbolTable.registerElf_frame _ mmap buildId).1.trans (pid_symbolTable h.pids mmap.pid mmap.pid)) pid
  | initAfterFork childPid parentPid =>
    have hpids := fun pid => pid_symbolTable (pid_symbolTable h.pids childPid) parentPid pid
    exact h.withTables (pid_set hpids (hpids childPid)) (f.tables.initAfterFork_resolver childPid parentPid)
  | dropSymbolTable pid =>
    refine h.withTables (fun pid' => ?_) rfl
    rw [SymbolTables.table_dropSymbolTable]
    by_cases hpid : pid' = pid
    · rw [if_pos hpid]
    · rw [if_neg hpid, h.pids]
  | updatePerfMap pid => exact h.withTables (pid_set h.pids (h.pids pid)) rfl
  | clearCache pid => exact h.withTables (pid_set h.pids (h.pids pid)) rfl
  | lookupFrame pid ip isKernel => exact h.lookupFrame pid ip isKernel

theorem run_sound (ops : List FrameOp) : (run H ops).Sound H := by
  induction ops using List.reverseRecOn with
  | nil => exact ⟨fun pid => rfl, fun s hs => (by cases hs), fun path relAddr => rfl⟩
  | append_singleton ops op ih =>
    rw [run_snoc]
    exact ih.apply op

/-! ## Sharing -/

theorem toUInt32_inj {pid pid' : Int32} (h : pid.toUInt32 = pid'.toUInt32) : pid = pid' := by
  cases pid
  cases pid'
  exact congrArg Int32.ofUInt32 h

/-- A lookup that returns a foreign location shares the key of one there. -/
theorem Sound.own (h : f.Sound H) {pid : Int32} {ip : UInt64} (isKernel : Bool)
    (hvalid : (f.elf pid ip).isValid = true) {s : StoredFrame} (hs : s ∈ f.stored)
    (hlocation : s.entry.locationId = f.locationId H pid ip isKernel) :
    s.pid = (f.first pid ip).1 ∧ PerfAddressCache.symbolAddress s.ip H.sources.isArmArch =
      PerfAddressCache.symbolAddress (f.first pid ip).2 H.sources.isArmArch := by
  obtain ⟨l, hl, haddress, hpid⟩ := h.first_locationId (H := H) isKernel hvalid
  have hle : f.tables.resolver.locations.Le (f.result H pid ip isKernel).2.1.locations := by
    cases hcached : (f.cached pid ip).isValid with
    | true =>
      rw [result_hit isKernel hcached]
      exact .refl _
    | false => exact (result_miss isKernel hcached).sends.locations_le
  obtain ⟨l', hl', haddress', hpid'⟩ := h.located s hs
  rw [← hlocation, hle.get? hl'] at hl
  cases hl
  exact ⟨toUInt32_inj (hpid'.symm.trans hpid), haddress'.symm.trans haddress⟩

/-- **Lookups in regions without a file return no foreign location**, where none shares its key with a lookup at a foreign
address that came first. -/
theorem own_of_unshared (H : Host) (ops : List FrameOp) (h : Always (Unshared H) ops) : Always (Own H) ops := by
  refine h.mono (fun pre op post _ hop => ?_)
  cases op with
  | lookupFrame pid ip isKernel =>
    intro hvalid hfile s hs hforeign hlocation
    obtain ⟨hpid, haddress⟩ := (run_sound pre).own isKernel hvalid hs hlocation
    exact hop hvalid hfile s hs hforeign hpid haddress
  | _ => trivial

/-- A lookup that finds the location of a foreign lookup returns it. -/
theorem not_own_of_first (H : Host) (pre : List FrameOp) {pid : Int32} {ip : UInt64} (isKernel : Bool)
    (hvalid : ((run H pre).elf pid ip).isValid = true) (hfile : ((run H pre).elf pid ip).isFile = false)
    {s : StoredFrame} (hforeign : (run H pre).Foreign pid ip s)
    (hfirst : (run H pre).stored.find? (fun s => s.Under ((run H pre).elf pid ip).originalPath
      (((run H pre).elf pid ip).relativeAddress ip)) = some s) : ¬Own H pre (.lookupFrame pid ip isKernel) := by
  intro hown
  have hs := List.mem_of_find?_eq_some hfirst
  have hcached := (run_sound (H := H) pre).cached_eq hvalid
  rw [hfirst, Option.map_some, Option.getD_some] at hcached
  refine hown hvalid hfile s hs hforeign ?_
  rw [locationId_eq, result_hit isKernel (by rw [hcached]; exact (run_sound pre).valid hs), hcached]

/-- A region of a process without a file. -/
def anonymousRegion (pid : Int32) (addr : UInt64) : PerfRecordMmap where
  pid := pid
  tid := pid
  addr := addr
  len := 0x1000
  filename := QByteArray.ofString "//anon"

theorem own_sameStart : Always (Own PerfUnwind.noFiles)
    [.registerElf (anonymousRegion 1 0x1000) [], .registerElf (anonymousRegion 2 0x1000) [],
      .lookupFrame 1 0x1100 false, .lookupFrame 2 0x1100 false] :=
  own_of_unshared PerfUnwind.noFiles _ (by decide)

/-- **Regions of two processes share keys**: the second process gets a location of the first. -/
theorem not_own_twoProcesses : ¬∀ (H : Host) (ops : List FrameOp), Always (Own H) ops := by
  intro h
  have hown := h PerfUnwind.noFiles
    [.registerElf (anonymousRegion 1 0x1000) [], .registerElf (anonymousRegion 2 0x5000) [],
      .lookupFrame 1 0x1100 false, .lookupFrame 2 0x5100 false]
  revert hown
  decide

end Frames

end PerfParser
