import PerfParser.ElfMap
import PerfParser.Lib.History
import PerfParser.Lib.StableSort
import Mathlib.Data.List.Destutter
/-!
# AddressCache — locations and symbols by address (`perfaddresscache.cpp`)

Locations are cached by file and by the address relative to the base of the mapping they were found in, symbols by file
and offset.  `Caches` is what mappings and lookups of any number of processes do to the one cache they share.
-/
namespace PerfParser

open History (Always)

structure AddressCacheEntry where
  locationId : Int := -1
  isInterworking : Bool := false
deriving DecidableEq, Repr, Inhabited

def AddressCacheEntry.isValid (e : AddressCacheEntry) : Bool := e.locationId ≥ 0

abbrev OffsetAddressCache := QHash UInt64 AddressCacheEntry

structure SymbolCacheEntry where
  offset : UInt64 := 0
  value : UInt64 := 0
  size : UInt64 := 0
  symname : QByteArray := []
  demangled : Bool := false
deriving DecidableEq, Repr, Inhabited

namespace SymbolCacheEntry

def isValid (e : SymbolCacheEntry) : Bool := !e.symname.isEmpty

/-- `operator==`. -/
def same (e e' : SymbolCacheEntry) : Prop := e.offset = e'.offset ∧ e.size = e'.size

instance (e e' : SymbolCacheEntry) : Decidable (e.same e') := inferInstanceAs (Decidable (_ ∧ _))

/-- Demangle symbols on demand: most of them are never encountered. -/
def lazyDemangle (demangle : QByteArray → QByteArray) (e : SymbolCacheEntry) : SymbolCacheEntry :=
  if e.demangled then e else { e with symname := demangle e.symname, demangled := true }

end SymbolCacheEntry

/-- What `dwfl_module_getsym_info` tells of a symbol. -/
structure ElfSymbol where
  symAddr : UInt64
  value : UInt64
  size : UInt64
  name : QByteArray
deriving DecidableEq, Repr, Inhabited

structure PerfAddressCache where
  cache : QHash QByteArray OffsetAddressCache := []
  symbolCache : QHash QByteArray (List SymbolCacheEntry) := []
deriving DecidableEq, Repr, Inhabited

/-- `relativeAddress`. -/
def ElfInfo.relativeAddress (elf : ElfInfo) (addr : UInt64) : UInt64 :=
  addr - (if elf.hasBaseAddr then elf.baseAddr else elf.addr)

namespace PerfAddressCache

/-- For a dwfl API call the raw pointer into the symtab is needed, one off on ARM. -/
def symbolAddress (addr : UInt64) (isArmArch : Bool) : UInt64 := if !isArmArch || addr &&& 1 != 0 then addr else addr + 1

/-- The address adjusted back. -/
def alignedAddress (addr : UInt64) (isArmArch : Bool) : UInt64 := if isArmArch && addr &&& 1 != 0 then addr - 1 else addr

def find (c : PerfAddressCache) (elf : ElfInfo) (addr : UInt64) (invalidAddressCache : OffsetAddressCache) :
    AddressCacheEntry :=
  if elf.isValid then (((c.cache.find elf.originalPath).getD []).find (elf.relativeAddress addr)).getD {}
  else (invalidAddressCache.find addr).getD {}

/-- `PerfAddressCache::cache`, with the next cache of the addresses outside all mappings. -/
def store (c : PerfAddressCache) (elf : ElfInfo) (addr : UInt64) (entry : AddressCacheEntry)
    (invalidAddressCache : OffsetAddressCache) : PerfAddressCache × OffsetAddressCache :=
  if elf.isValid then
    let addresses := ((c.cache.find elf.originalPath).getD []).insert (elf.relativeAddress addr) entry
    ({ c with cache := c.cache.insert elf.originalPath addresses }, invalidAddressCache)
  else (c, invalidAddressCache.insert addr entry)

def hasSymbolCache (c : PerfAddressCache) (filePath : QByteArray) : Bool := c.symbolCache.contains filePath

/-- Sorted as addr2line would find the entries: the first of those with one offset and size. -/
def setSymbolCache (c : PerfAddressCache) (filePath : QByteArray) (cache : List SymbolCacheEntry) : PerfAddressCache :=
  let sorted := StableSort.sortBy (fun e : SymbolCacheEntry => e.offset) cache
  { c with symbolCache := c.symbolCache.insert filePath (sorted.destutter (fun a b => ¬a.same b)) }

/-- The symbol that encompasses `relAddr`, with the symbols as they are demangled after it. -/
def findIn (demangle : QByteArray → QByteArray) (relAddr : UInt64) (symbols : List SymbolCacheEntry) :
    SymbolCacheEntry × List SymbolCacheEntry :=
  let before := symbols.takeWhile (fun e => e.offset < relAddr)
  let after := symbols.dropWhile (fun e => e.offset < relAddr)
  let previous : SymbolCacheEntry × List SymbolCacheEntry :=
    match before.getLast? with
    | none => ({}, symbols)
    | some e =>
      if e.offset ≤ relAddr ∧ (e.offset + e.size > relAddr ∨ e.size = 0) then
        (e.lazyDemangle demangle, before.dropLast ++ e.lazyDemangle demangle :: after)
      else ({}, symbols)
  match after with
  | [] => previous
  | e :: rest =>
    if e.offset = relAddr then (e.lazyDemangle demangle, before ++ e.lazyDemangle demangle :: rest) else previous

def findSymbol (demangle : QByteArray → QByteArray) (c : PerfAddressCache) (filePath : QByteArray) (relAddr : UInt64) :
    SymbolCacheEntry × PerfAddressCache :=
  let (entry, symbols) := findIn demangle relAddr ((c.symbolCache.find filePath).getD [])
  (entry, { c with symbolCache := c.symbolCache.insert filePath symbols })

def extractSymbols (symbols : List ElfSymbol) (elfStart : UInt64) (isArmArch : Bool) : List SymbolCacheEntry :=
  symbols.map (fun s =>
    { offset := s.symAddr - elfStart, value := alignedAddress s.value isArmArch, size := s.size, symname := s.name })

/-! ## Lookups -/

/-- The entry under a path and a relative address. -/
def entryAt (c : PerfAddressCache) (path : QByteArray) (relAddr : UInt64) : Option AddressCacheEntry :=
  ((c.cache.find path).getD []).find relAddr

theorem find_of_valid {c : PerfAddressCache} {elf : ElfInfo} (h : elf.isValid = true) (addr : UInt64)
    (invalid : OffsetAddressCache) :
    c.find elf addr invalid = (c.entryAt elf.originalPath (elf.relativeAddress addr)).getD {} := by
  rw [find, if_pos h, entryAt]

theorem entryAt_store_of_valid {c : PerfAddressCache} {elf : ElfInfo} (h : elf.isValid = true) (addr : UInt64)
    (entry : AddressCacheEntry) (invalid : OffsetAddressCache) (path : QByteArray) (relAddr : UInt64) :
    (c.store elf addr entry invalid).1.entryAt path relAddr =
      if path = elf.originalPath ∧ relAddr = elf.relativeAddress addr then some entry else c.entryAt path relAddr := by
  rw [store, if_pos h, entryAt]
  dsimp only
  by_cases hpath : path = elf.originalPath
  · subst hpath
    rw [QHash.find_insert_self, Option.getD_some, QHash.find_insert]
    by_cases haddr : relAddr = elf.relativeAddress addr <;> simp [haddr, entryAt]
  · rw [QHash.find_insert_of_ne _ _ hpath, if_neg (fun h => hpath h.1), entryAt]

theorem store_of_invalid {c : PerfAddressCache} {elf : ElfInfo} (h : elf.isValid = false) (addr : UInt64)
    (entry : AddressCacheEntry) (invalid : OffsetAddressCache) : (c.store elf addr entry invalid).1 = c := by
  rw [store, if_neg (ne_true_of_eq_false h)]

/-- A location that is stored is found under its offset in the file, or under its address. -/
theorem entryAt_store (c : PerfAddressCache) (elf : ElfInfo) (addr : UInt64) (entry : AddressCacheEntry)
    (invalid : OffsetAddressCache) (path : QByteArray) (relAddr : UInt64) :
    (c.store elf addr entry invalid).1.entryAt path relAddr =
      if elf.isValid = true ∧ path = elf.originalPath ∧ relAddr = elf.relativeAddress addr then some entry
      else c.entryAt path relAddr := by
  cases hvalid : elf.isValid with
  | true =>
    rw [entryAt_store_of_valid hvalid]
    simp only [true_and]
  | false => rw [store_of_invalid hvalid, if_neg (fun h => Bool.false_ne_true h.1)]

theorem find_store (c : PerfAddressCache) (elf : ElfInfo) (addr : UInt64) (entry : AddressCacheEntry)
    (invalid : OffsetAddressCache) (addr' : UInt64) :
    (c.store elf addr entry invalid).2.find addr' =
      if elf.isValid = false ∧ addr' = addr then some entry else invalid.find addr' := by
  cases hvalid : elf.isValid with
  | true => rw [store, if_pos hvalid, if_neg (fun h => Bool.false_ne_true h.1.symm)]
  | false =>
    rw [store, if_neg (ne_true_of_eq_false hvalid)]
    simp only [true_and]
    exact QHash.find_insert _ _ _ _

end PerfAddressCache

/-! ## Mappings and lookups -/

/-- The offset in the file that an address of a mapping stands for. -/
def ElfInfo.fileOffset (elf : ElfInfo) (ip : UInt64) : UInt64 := ip - elf.addr + elf.pgoff

/-- What changes the maps of the processes. -/
inductive MapOp
  | registerElf (map : Nat) (mapping : Mapping)
  | copyDataFrom (map parent : Nat)
deriving DecidableEq, Repr

inductive CacheOp
  | map (op : MapOp)
  | cache (map : Nat) (ip : UInt64) (entry : AddressCacheEntry)
  | find (map : Nat) (ip : UInt64)
deriving DecidableEq, Repr

def CacheOp.map? : CacheOp → Option MapOp
  | .map op => some op
  | _ => none

abbrev ElfMaps := Nat → PerfElfMap

def ElfMaps.apply (maps : ElfMaps) : MapOp → ElfMaps
  | .registerElf map mapping => Function.update maps map ((maps map).registerElf mapping).1
  | .copyDataFrom map parent => Function.update maps map (maps parent)

def ElfMaps.after (ops : List MapOp) : ElfMaps := ops.foldl ElfMaps.apply (fun _ => {})

/-- A call of `cache`, as it is logged. -/
structure Stored where
  elf : ElfInfo
  ip : UInt64
  entry : AddressCacheEntry
deriving DecidableEq, Repr

/-- The maps, the cache they share, each map's cache of the addresses outside it, and the log of what was cached. -/
structure Caches where
  maps : ElfMaps := fun _ => {}
  addressCache : PerfAddressCache := {}
  invalidAddressCaches : Nat → OffsetAddressCache := fun _ => []
  stored : List Stored := []

namespace Caches

def apply (c : Caches) : CacheOp → Caches
  | .map op => { c with maps := c.maps.apply op }
  | .cache map ip entry =>
    let elf := (c.maps map).findElf ip
    let (addressCache, invalid) := c.addressCache.store elf ip entry (c.invalidAddressCaches map)
    { c with
      addressCache := addressCache
      invalidAddressCaches := Function.update c.invalidAddressCaches map invalid
      stored := c.stored ++ [{ elf := elf, ip := ip, entry := entry }] }
  | .find _ _ => c

def run (ops : List CacheOp) : Caches := ops.foldl apply {}

def find (c : Caches) (map : Nat) (ip : UInt64) : AddressCacheEntry :=
  c.addressCache.find ((c.maps map).findElf ip) ip (c.invalidAddressCaches map)

theorem run_snoc (ops : List CacheOp) (op : CacheOp) : run (ops ++ [op]) = (run ops).apply op := List.foldl_append ..

theorem run_maps (ops : List CacheOp) : (run ops).maps = ElfMaps.after (ops.filterMap CacheOp.map?) := by
  induction ops using List.reverseRecOn with
  | nil => rfl
  | append_singleton ops op ih =>
    rw [run_snoc, List.filterMap_append, ElfMaps.after, List.foldl_append]
    cases op with
    | map op => exact congrArg (fun maps : ElfMaps => maps.apply op) ih
    | cache map ip entry => exact ih
    | find map ip => exact ih

/-- The lookup is in a valid mapping of a file. -/
def FileBacked (pre : List CacheOp) : CacheOp → Prop
  | .map _ => True
  | .cache map ip _ => (((run pre).maps map).findElf ip).isValid = true ∧ (((run pre).maps map).findElf ip).isFile = true
  | .find map ip => (((run pre).maps map).findElf ip).isValid = true ∧ (((run pre).maps map).findElf ip).isFile = true

instance (pre : List CacheOp) : ∀ op, Decidable (FileBacked pre op)
  | .map _ => isTrue trivial
  | .cache _ _ _ => inferInstanceAs (Decidable (_ ∧ _))
  | .find _ _ => inferInstanceAs (Decidable (_ ∧ _))

/-- What `find` returns was cached for the same offset in the same file. -/
def Answered (pre : List CacheOp) : CacheOp → Prop
  | .find map ip => ((run pre).find map ip).isValid = true → ∃ s ∈ (run pre).stored,
      s.entry = (run pre).find map ip ∧
      s.elf.originalPath = (((run pre).maps map).findElf ip).originalPath ∧
      s.elf.fileOffset s.ip = (((run pre).maps map).findElf ip).fileOffset ip
  | _ => True

instance (pre : List CacheOp) : ∀ op, Decidable (Answered pre op)
  | .map _ => isTrue trivial
  | .cache _ _ _ => isTrue trivial
  | .find map ip => inferInstanceAs (Decidable (((run pre).find map ip).isValid = true → ∃ s ∈ (run pre).stored, _))

/-- The mapping of a file that a lookup finds at some point. -/
def FoundIn (ops : List MapOp) (elf : ElfInfo) (ip : UInt64) : Prop :=
  ∃ pre, pre <+: ops ∧ ∃ map, (ElfMaps.after pre map).findElf ip = elf ∧ elf.isValid = true ∧ elf.isFile = true

/-- Addresses that share a key of the cache stand for the same offset in the file. -/
def Distinguishes (ops : List MapOp) : Prop := ∀ elf ip elf' ip', FoundIn ops elf ip → FoundIn ops elf' ip' →
  elf.originalPath = elf'.originalPath → elf.relativeAddress ip = elf'.relativeAddress ip' →
  elf.fileOffset ip = elf'.fileOffset ip'

/-- What is cached was logged under the same key, by a lookup in a file. -/
structure Logged (ops : List CacheOp) (c : Caches) : Prop where
  found : ∀ s ∈ c.stored, FoundIn (ops.filterMap CacheOp.map?) s.elf s.ip
  entries : ∀ path relAddr entry, c.addressCache.entryAt path relAddr = some entry →
    ∃ s ∈ c.stored, s.entry = entry ∧ s.elf.originalPath = path ∧ s.elf.relativeAddress s.ip = relAddr

theorem FoundIn.append {ops : List MapOp} {elf : ElfInfo} {ip : UInt64} (h : FoundIn ops elf ip) (ops' : List MapOp) :
    FoundIn (ops ++ ops') elf ip := by
  obtain ⟨pre, hpre, hfound⟩ := h
  exact ⟨pre, hpre.trans (List.prefix_append _ _), hfound⟩

theorem foundIn_run {ops : List CacheOp} {map : Nat} {ip : UInt64}
    (h : (((run ops).maps map).findElf ip).isValid = true ∧ (((run ops).maps map).findElf ip).isFile = true) :
    FoundIn (ops.filterMap CacheOp.map?) (((run ops).maps map).findElf ip) ip :=
  ⟨_, List.prefix_refl _, map, by rw [run_maps], h.1, h.2⟩

theorem run_logged (ops : List CacheOp) : Always FileBacked ops → Logged ops (run ops) := by
  induction ops using List.reverseRecOn with
  | nil => exact fun _ => ⟨by simp [run], fun path relAddr entry h => by cases h⟩
  | append_singleton ops op ih =>
    intro hfile
    obtain ⟨hfile, hop⟩ := History.always_snoc.1 hfile
    obtain ⟨hfound, hentries⟩ := ih hfile
    have hkeep : ∀ s ∈ (run ops).stored, FoundIn ((ops ++ [op]).filterMap CacheOp.map?) s.elf s.ip := by
      intro s hs
      rw [List.filterMap_append]
      exact (hfound s hs).append _
    rw [run_snoc]
    cases op with
    | map op => exact ⟨hkeep, hentries⟩
    | find map ip => exact ⟨hkeep, hentries⟩
    | cache map ip entry =>
      constructor
      · intro s hs
        rcases List.mem_append.1 hs with hs | hs
        · exact hkeep s hs
        · rw [List.mem_singleton.1 hs, List.filterMap_append]
          exact (foundIn_run hop).append _
      · intro path relAddr entry' h
        have hstore := PerfAddressCache.entryAt_store_of_valid (c := (run ops).addressCache) hop.1 ip entry
          ((run ops).invalidAddressCaches map) path relAddr
        rw [show (apply (run ops) (.cache map ip entry)).addressCache.entryAt path relAddr = _ from hstore] at h
        split at h
        · rename_i hkey
          cases h
          exact ⟨_, List.mem_append_right _ (List.mem_singleton_self _), rfl, hkey.1.symm, hkey.2.symm⟩
        · obtain ⟨s, hs, hlog⟩ := hentries path relAddr entry' h
          exact ⟨s, List.mem_append_left _ hs, hlog⟩

/-- Where keys distinguish offsets, every answer is right. -/
theorem answered_of_distinguishes {ops : List CacheOp} (hkeys : Distinguishes (ops.filterMap CacheOp.map?))
    (hfile : Always FileBacked ops) : Always Answered ops := by
  rintro pre op post rfl
  have hop := hfile pre op post rfl
  have hlogged := run_logged pre (hfile.of_prefix (List.prefix_append _ _))
  cases op with
  | map op => trivial
  | cache map ip entry => trivial
  | find map ip =>
    intro hvalid
    have hfind := PerfAddressCache.find_of_valid (c := (run pre).addressCache) hop.1 ip
      ((run pre).invalidAddressCaches map)
    cases hentry : (run pre).addressCache.entryAt (((run pre).maps map).findElf ip).originalPath
        ((((run pre).maps map).findElf ip).relativeAddress ip) with
    | none =>
      rw [hentry] at hfind
      rw [find, hfind] at hvalid
      cases hvalid
    | some entry =>
      rw [hentry] at hfind
      obtain ⟨s, hs, hentry', hpath, hrel⟩ := hlogged.entries _ _ _ hentry
      refine ⟨s, hs, hentry'.trans hfind.symm, hpath, hkeys _ _ _ _ ?_ ?_ hpath hrel⟩
      · rw [List.filterMap_append]
        exact (hlogged.found s hs).append _
      · rw [List.filterMap_append]
        exact (foundIn_run hop).append _

/-! ## Colliding keys

Mappings found at two points, and one lookup cached at the first point and found at the second. -/

theorem run_mapOps (c : List CacheOp) (ops : List MapOp) :
    (run (c ++ ops.map .map)).addressCache = (run c).addressCache ∧
      (run (c ++ ops.map .map)).stored = (run c).stored := by
  induction ops using List.reverseRecOn with
  | nil => simp
  | append_singleton ops op ih =>
    rw [List.map_append, List.map_singleton, ← List.append_assoc, run_snoc]
    exact ih

theorem filterMap_mapOps (ops : List MapOp) : (ops.map CacheOp.map).filterMap CacheOp.map? = ops := by
  rw [List.filterMap_map]
  exact List.filterMap_some

@[simp] theorem map?_cache (map : Nat) (ip : UInt64) (entry : AddressCacheEntry) :
    (CacheOp.cache map ip entry).map? = none := rfl

@[simp] theorem map?_find (map : Nat) (ip : UInt64) : (CacheOp.find map ip).map? = none := rfl

theorem always_mapOps {P : List CacheOp → CacheOp → Prop} (hP : ∀ pre op, P pre (.map op)) {c : List CacheOp}
    (hc : Always P c) (ops : List MapOp) : Always P (c ++ ops.map .map) := by
  refine History.always_append hc (fun pre x post hx => ?_)
  obtain ⟨op, -, rfl⟩ := List.mem_map.1 (by rw [hx]; simp : x ∈ ops.map CacheOp.map)
  exact hP _ op

/-- The run that caches an address at one point and finds another at a later one. -/
def probe (before between after : List MapOp) (map' map : Nat) (ip' ip : UInt64) : List CacheOp :=
  before.map .map ++ [.cache map' ip' { locationId := 0 }] ++ between.map .map ++ [.find map ip] ++ after.map .map

theorem probe_maps (before between after : List MapOp) (map' map : Nat) (ip' ip : UInt64) :
    (probe before between after map' map ip' ip).filterMap CacheOp.map? = before ++ between ++ after := by
  simp [probe, List.filterMap_cons, filterMap_mapOps, -List.filterMap_map]

theorem fileOffset_of_probe {before between : List MapOp} (after : List MapOp) {map' map : Nat} {ip' ip : UInt64}
    {elf' elf : ElfInfo} (hfind' : (ElfMaps.after before map').findElf ip' = elf')
    (hfind : (ElfMaps.after (before ++ between) map).findElf ip = elf) (hvalid' : elf'.isValid = true)
    (hfile' : elf'.isFile = true) (hvalid : elf.isValid = true) (hfile : elf.isFile = true)
    (hpath : elf'.originalPath = elf.originalPath) (hrel : elf'.relativeAddress ip' = elf.relativeAddress ip)
    (hsound : Always FileBacked (probe before between after map' map ip' ip) →
      Always Answered (probe before between after map' map ip' ip)) :
    elf'.fileOffset ip' = elf.fileOffset ip := by
  have hmaps : (run (before.map .map)).maps = ElfMaps.after before := by rw [run_maps, filterMap_mapOps]
  have hmaps' : (run (before.map .map ++ [.cache map' ip' { locationId := 0 }] ++ between.map .map)).maps =
      ElfMaps.after (before ++ between) := by
    simp [run_maps, List.filterMap_cons, filterMap_mapOps, -List.filterMap_map]
  obtain ⟨hcache, hstored⟩ := run_mapOps (before.map .map ++ [.cache map' ip' { locationId := 0 }]) between
  obtain ⟨-, hnone⟩ := run_mapOps [] before
  have hbacked : Always FileBacked (probe before between after map' map ip' ip) := by
    have hbefore : Always FileBacked (before.map .map) :=
      always_mapOps (fun _ _ => trivial) (c := []) History.always_nil before
    refine always_mapOps (fun _ _ => trivial) (History.always_snoc.2 ⟨always_mapOps (fun _ _ => trivial)
      (History.always_snoc.2 ⟨hbefore, ?_⟩) between, ?_⟩) after
    · simp only [FileBacked, hmaps, hfind', hvalid', hfile', and_self]
    · simp only [FileBacked, hmaps', hfind, hvalid, hfile, and_self]
  -- the entry is found under the key it was cached under
  have hentry : (run (before.map .map ++ [.cache map' ip' { locationId := 0 }] ++ between.map .map)).find map ip =
      { locationId := 0 } := by
    have hvalid'' : ((run (before.map CacheOp.map)).maps map').findElf ip' = elf' := by rw [hmaps, hfind']
    rw [find, hmaps', hfind, PerfAddressCache.find_of_valid hvalid, hcache, run_snoc]
    dsimp only [apply]
    rw [hvalid'', PerfAddressCache.entryAt_store_of_valid hvalid', if_pos ⟨hpath.symm, hrel.symm⟩, Option.getD_some]
  have hanswered := hsound hbacked (before.map .map ++ [.cache map' ip' { locationId := 0 }] ++ between.map .map)
    (.find map ip) (after.map .map) (List.append_assoc _ [_] _)
  rw [Answered, hentry, hmaps', hfind] at hanswered
  obtain ⟨s, hs, -, -, hoffset⟩ := hanswered rfl
  rw [hstored, run_snoc, apply, show (run (before.map CacheOp.map)).stored = [] from hnone, List.nil_append,
    List.mem_singleton] at hs
  rw [hs] at hoffset
  simp only [hmaps, hfind'] at hoffset
  exact hoffset

/-- **The cache is sound exactly for the mappings whose keys distinguish their offsets**: with these mappings, every
interleaving of lookups is answered right. -/
theorem answered_iff_distinguishes (mapOps : List MapOp) :
    (∀ ops : List CacheOp, ops.filterMap CacheOp.map? = mapOps → Always FileBacked ops → Always Answered ops) ↔
      Distinguishes mapOps := by
  constructor
  · rintro hsound elf ip elf' ip' ⟨pre, ⟨post, hpre⟩, map, hfind, hvalid, hfile⟩ ⟨pre', ⟨post', hpre'⟩, map', hfind',
      hvalid', hfile'⟩ hpath hrel
    rcases List.append_eq_append_iff.1 (hpre.trans hpre'.symm) with ⟨between, rfl, rfl⟩ | ⟨between, rfl, rfl⟩
    · refine fileOffset_of_probe post' hfind hfind' hvalid hfile hvalid' hfile' hpath hrel (hsound _ ?_)
      rw [probe_maps, hpre']
    · refine (fileOffset_of_probe post hfind' hfind hvalid' hfile' hvalid hfile hpath.symm hrel.symm
        (hsound _ ?_)).symm
      rw [probe_maps, hpre]
  · rintro hkeys ops rfl hfile
    exact answered_of_distinguishes hkeys hfile

/-- A library, and another file that is mapped into the middle of it. -/
def splitLibrary : List MapOp :=
  let file : QFileInfo := { isFile := true }
  [.registerElf 0
      { addr := 0x1000, len := 0x3000, pgoff := 0, fullPath := file, originalPath := QByteArray.ofString "/lib" },
    .registerElf 0
      { addr := 0x2000, len := 0x1000, pgoff := 0, fullPath := file, originalPath := QByteArray.ofString "/app" }]

end Caches

end PerfParser
