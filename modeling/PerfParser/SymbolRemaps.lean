import PerfParser.LocationNames
import PerfParser.SymbolRegions
/-!
# SymbolRemaps — names of symbols while mappings come and go

A lookup without debug information finds the symbol of an address in the symbols of the file that is mapped there.  The
locations it asks for are those of the address and of the symbol in the process, whatever file is mapped at them: after
another file has been mapped there, they still have the names they got first (`named_iff_kept`).
-/
namespace PerfParser

open History (Always)

/-! ## One lookup -/

/-- The symbol that `findSymbol` yields for an address in a mapping: in the symbols that are cached for its path, or in
those of the module. -/
def foundSymbol (sources : SymbolSources) (c : PerfAddressCache) (mod : Module) (elf : ElfInfo) (address : UInt64) :
    SymbolCacheEntry :=
  let c := if c.hasSymbolCache elf.originalPath then c else
    c.setSymbolCache elf.originalPath (PerfAddressCache.extractSymbols mod.symbols elf.start sources.isArmArch)
  (c.findSymbol sources.demangle elf.originalPath (address - elf.start)).1

/-- A function and an address in a process. -/
def Asked.at (pid : UInt32) (function address relAddr : UInt64) (name : QByteArray) : Asked where
  function := { address := function, pid := pid }
  address := { address := address, relAddr := relAddr, pid := pid }
  name := name
  function_key := rfl
  address_key := rfl

/-- What a lookup without debug information asks for. -/
def Asked.of (sources : SymbolSources) (perfMap : List PerfMapSymbol) (isKernel : Bool) (c : PerfAddressCache)
    (elf : ElfInfo) (pid : UInt32) (address : UInt64) : Option Module → Asked
  | some mod =>
    let info := foundSymbol sources c mod elf address
    let off := address - elf.start - info.offset
    if info.isValid then
      .at pid (address - off) address (PerfAddressCache.alignedAddress (info.value + off) sources.isArmArch) info.symname
    else .at pid address address 0 (mod.fakeSymbol address)
  | none =>
    let found := findSymbolWithoutModule sources perfMap isKernel address
    .at pid (if found.2.1 ≠ 0 then address - found.2.1 else elf.start) address 0 found.1

/-- A module without debug information for an address, or none. -/
def hasNoDwarf (address : UInt64) : Option Module → Bool
  | some mod => (mod.cuDie address).isNone
  | none => true

section

variable (sources : SymbolSources) (perfMap : List PerfMapSymbol) (c : PerfAddressCache) (elf : ElfInfo) (pid : UInt32)
  {address : UInt64} {mod : Option Module}

theorem Asked.of_address (isKernel : Bool) (address : UInt64)
    (mod : Option Module) : (Asked.of sources perfMap isKernel c elf pid address mod).address =
    { address := address, relAddr := (Asked.of sources perfMap isKernel c elf pid address mod).address.relAddr,
      pid := pid } := by
  cases mod with
  | some mod =>
    unfold Asked.of
    dsimp only
    split <;> rfl
  | none => rfl

theorem findAllDebugInfo_strings (d : Definitions) : d.Le (d.findAllDebugInfo sources) ∧
    (d.findAllDebugInfo sources).locations = d.locations ∧ (d.findAllDebugInfo sources).symbols = d.symbols := by
  have hdownload : ∀ (module : Int) (downloads : List Download) (d : Definitions),
      d.Le (downloads.foldl (Definitions.downloadProgress module) d) ∧
        (downloads.foldl (Definitions.downloadProgress module) d).locations = d.locations ∧
        (downloads.foldl (Definitions.downloadProgress module) d).symbols = d.symbols := by
    intro module downloads
    induction downloads with
    | nil => exact fun d => ⟨.refl d, rfl, rfl⟩
    | cons download downloads ih =>
      intro d
      obtain ⟨hle, hlocations, hsymbols⟩ := ih (d.downloadProgress module download)
      have hurl : d.Le (d.downloadProgress module download) :=
        ⟨(d.resolveString_le download.url).strings, (d.resolveString_le download.url).locations,
          (d.resolveString_le download.url).symbols⟩
      exact ⟨hurl.trans hle, hlocations.trans (d.resolveString_locations download.url),
        hsymbols.trans (d.resolveString_symbols download.url)⟩
  have hsearch : ∀ (searches : List DebugInfoSearch) (d : Definitions),
      d.Le (searches.foldl Definitions.findDebugInfo d) ∧
        (searches.foldl Definitions.findDebugInfo d).locations = d.locations ∧
        (searches.foldl Definitions.findDebugInfo d).symbols = d.symbols := by
    intro searches
    induction searches with
    | nil => exact fun d => ⟨.refl d, rfl, rfl⟩
    | cons search searches ih =>
      intro d
      obtain ⟨hle, hlocations, hsymbols⟩ := hdownload (d.resolveString search.moduleName).1 search.downloads
        (d.resolveString search.moduleName).2
      obtain ⟨hle', hlocations', hsymbols'⟩ := ih (d.findDebugInfo search)
      exact ⟨((d.resolveString_le search.moduleName).trans hle).trans hle',
        hlocations'.trans (hlocations.trans (d.resolveString_locations search.moduleName)),
        hsymbols'.trans (hsymbols.trans (d.resolveString_symbols search.moduleName))⟩
  exact hsearch _ d

/-- **A lookup without debug information asks for its two locations.** -/
theorem lookupSymbol_asked (x : SymbolContext) (d : Definitions) (h : hasNoDwarf address mod = true) :
    ∃ (start size : UInt64) (d' : Definitions) (binaryId : Int) (c' : PerfAddressCache), d.Le d' ∧
      d'.locations = d.locations ∧ d'.symbols = d.symbols ∧
      lookupSymbol sources perfMap elf x c
        { addressLocation := { address := address, pid := pid }, definitions := d } mod =
        (Lookup.resolveFunction
          { symname := (Asked.of sources perfMap x.isKernel c elf pid address mod).name, start := start, size := size
            relAddr := (Asked.of sources perfMap x.isKernel c elf pid address mod).address.relAddr
            addressLocation := { address := address, pid := pid }, definitions := d' }
          (Asked.of sources perfMap x.isKernel c elf pid address mod).function, binaryId, c') := by
  cases mod with
  | some mod =>
    have hcuDie : mod.cuDie address = none := Option.isNone_iff_eq_none.1 h
    obtain ⟨hle, hlocations, hsymbols⟩ := findAllDebugInfo_strings sources d
    obtain ⟨hle', hlocations', hsymbols'⟩ := findAllDebugInfo_strings sources (d.findAllDebugInfo sources)
    unfold lookupSymbol lookupModule Asked.of foundSymbol
    dsimp only
    generalize PerfAddressCache.findSymbol sources.demangle _ elf.originalPath (address - elf.start) = found
    obtain ⟨info, c'⟩ := found
    cases hvalid : info.isValid with
    | true =>
      simp only [hcuDie, if_true]
      exact ⟨_, _, _, _, _, hle.trans hle', hlocations'.trans hlocations, hsymbols'.trans hsymbols, rfl⟩
    | false =>
      simp only [Bool.false_eq_true, if_false]
      exact ⟨_, _, _, _, _, hle, hlocations, hsymbols, rfl⟩
  | none =>
    unfold lookupSymbol lookupWithoutModule Asked.of
    generalize findSymbolWithoutModule sources perfMap x.isKernel address = found
    obtain ⟨symname, off, module⟩ := found
    by_cases hmodule : module.isEmpty = true
    · simp only [hmodule, if_true]
      exact ⟨_, _, d, _, _, .refl d, rfl, rfl, rfl⟩
    · simp only [hmodule]
      exact ⟨_, _, (d.resolveString module).2, _, _, d.resolveString_le module, d.resolveString_locations module,
        d.resolveString_symbols module, rfl⟩

/-- The locations and the symbol of a lookup, after its strings. -/
theorem resolveFunction_define (x : SymbolContext) (d : Definitions) (symname : QByteArray)
    (start size relAddr : UInt64) (address function : Location) (haddress : address.parentLocationId = -1) :
    ∃ symbol : Int → Symbol, (∀ i, (symbol i).name = i) ∧ ∀ l : Lookup, l = (Lookup.resolveFunction
        { symname := symname, start := start, size := size, relAddr := relAddr, addressLocation := address,
          definitions := d } function).resolveSymbol x →
      l.definitions.resolveLocation { l.addressLocation with relAddr := l.relAddr } =
        d.define function { address with relAddr := relAddr } symname symbol := by
  refine ⟨fun symId => { name := symId, relAddr := start, size := size, binary := x.binaryId, path := x.binaryPathId,
                         actualPath := x.actualPathId, isKernel := x.isKernel }, fun _ => rfl, ?_⟩
  rintro l rfl
  rw [Lookups.definitions_resolveSymbol, (Lookups.frame_resolveSymbol _ x).1, (Lookups.frame_resolveSymbol _ x).2.2,
    Lookup.resolveFunction, if_pos haddress]
  rfl

end

namespace PerfSymbolTable

variable {H : Host} {r : Resolver} {t : PerfSymbolTable} {ip : UInt64}

/-- What a lookup in the table of a process asks for. -/
def asked (H : Host) (r : Resolver) (t : PerfSymbolTable) (ip : UInt64) (isKernel : Bool) : Asked :=
  .of H.sources t.perfMap isKernel r.addressCache (t.elfs.findElf ip) t.pid.toUInt32
    (PerfAddressCache.symbolAddress ip H.sources.isArmArch) (t.module H ip (t.elfs.findElf ip)).1

/-- **A lookup that misses the cache defines what it asks for.** -/
theorem lookupFrame_asked (isKernel : Bool)
    (hmiss : (r.addressCache.find (t.elfs.findElf ip) ip t.invalidAddressCache).isValid = false)
    (hdwarf : hasNoDwarf (PerfAddressCache.symbolAddress ip H.sources.isArmArch)
      (t.module H ip (t.elfs.findElf ip)).1 = true) :
    ∃ (d : Definitions) (symbol : Int → Symbol), r.toDefinitions.Le d ∧ d.locations = r.locations ∧
      d.symbols = r.symbols ∧ (∀ i, (symbol i).name = i) ∧
      ((t.lookupFrame H.sources (PerfSymbolTable.module H) r ip isKernel).1.locationId,
        (t.lookupFrame H.sources (PerfSymbolTable.module H) r ip isKernel).2.1.toDefinitions) =
        d.define (asked H r t ip isKernel).function (asked H r t ip isKernel).address (asked H r t ip isKernel).name
          symbol := by
  obtain ⟨hpid, hperfMap, -⟩ := t.module_frame (H := H) ip (t.elfs.findElf ip)
  obtain ⟨hle, hlocations, hsymbols⟩ := Lookups.resolveElf_spec r.toDefinitions (t.elfs.findElf ip)
  rw [lookupFrame_of_miss hmiss]
  unfold asked
  dsimp only
  rw [hpid, hperfMap]
  obtain ⟨start, size, d', binaryId, c', hle', hlocations', hsymbols', hlookup⟩ := lookupSymbol_asked
    H.sources t.perfMap r.addressCache (t.elfs.findElf ip) t.pid.toUInt32
    { pid := t.pid, offset := 0, size := 0, relAddr := 0, isKernel := isKernel
      binaryId := (resolveElf r.toDefinitions (t.elfs.findElf ip)).1.1
      binaryPathId := (resolveElf r.toDefinitions (t.elfs.findElf ip)).1.2.1
      actualPathId := (resolveElf r.toDefinitions (t.elfs.findElf ip)).1.2.2 }
    (resolveElf r.toDefinitions (t.elfs.findElf ip)).2 hdwarf
  rw [hlookup]
  dsimp only
  have haddress := Asked.of_address H.sources t.perfMap r.addressCache (t.elfs.findElf ip) t.pid.toUInt32 isKernel
    (PerfAddressCache.symbolAddress ip H.sources.isArmArch) (t.module H ip (t.elfs.findElf ip)).1
  generalize Asked.of H.sources t.perfMap isKernel r.addressCache (t.elfs.findElf ip) t.pid.toUInt32
    (PerfAddressCache.symbolAddress ip H.sources.isArmArch) (t.module H ip (t.elfs.findElf ip)).1 = a at haddress ⊢
  obtain ⟨symbol, hname, hdefine⟩ := resolveFunction_define
    { pid := t.pid, offset := 0, size := 0, relAddr := 0, isKernel := isKernel, binaryId := binaryId
      binaryPathId := (resolveElf r.toDefinitions (t.elfs.findElf ip)).1.2.1
      actualPathId := (resolveElf r.toDefinitions (t.elfs.findElf ip)).1.2.2 } d' a.name start size a.address.relAddr
    { address := PerfAddressCache.symbolAddress ip H.sources.isArmArch, pid := t.pid.toUInt32 } a.function rfl
  refine ⟨d', symbol, hle.trans hle', hlocations'.trans hlocations, hsymbols'.trans hsymbols, hname, ?_⟩
  rw [haddress]
  exact hdefine _ rfl

end PerfSymbolTable

/-! ## Runs -/

/-- What a location is cached under: a path and an address relative to the start of a mapping, or an address of a
process outside all mappings. -/
abbrev CacheKey := (QByteArray × UInt64) ⊕ (Int32 × UInt64)

namespace Frames

variable (H : Host)

def key (f : Frames) (pid : Int32) (ip : UInt64) : CacheKey :=
  if (f.elf pid ip).isValid then .inl ((f.elf pid ip).originalPath, (f.elf pid ip).relativeAddress ip) else .inr (pid, ip)

/-- The cached location under a key. -/
def cachedAt (f : Frames) : CacheKey → Option AddressCacheEntry
  | .inl (path, relAddr) => f.tables.resolver.addressCache.entryAt path relAddr
  | .inr (pid, ip) => (f.tables.table pid).invalidAddressCache.find ip

theorem cached_eq_cachedAt (f : Frames) (pid : Int32) (ip : UInt64) :
    f.cached pid ip = (f.cachedAt (f.key pid ip)).getD {} := by
  unfold key
  split
  · rename_i hvalid
    exact PerfAddressCache.find_of_valid hvalid _ _
  · rename_i hvalid
    rw [cached, PerfAddressCache.find, if_neg hvalid]
    rfl

/-- The module that a lookup finds. -/
def module? (f : Frames) (pid : Int32) (ip : UInt64) : Option Module :=
  ((f.tables.table pid).module H ip (f.elf pid ip)).1

/-- What a lookup asks for. -/
def asks (f : Frames) (pid : Int32) (ip : UInt64) (isKernel : Bool) : Asked :=
  (f.tables.table pid).asked H f.tables.resolver ip isKernel

/-- The module of the file that is mapped at an address, reported alone, at the base of its mapping. -/
def fileModule (f : Frames) (pid : Int32) (ip : UInt64) : Option Module :=
  let elfs := (f.tables.table pid).elfs
  let base := PerfSymbolTable.moduleElf elfs (elfs.elfs.length + 1) (f.elf pid ip)
  (({ pid := pid } : PerfSymbolTable).reportElf H { f.elf pid ip with addr := base.addr, pgoff := base.pgoff }).1

/-- The name of the symbol that is found for an address in the file that is mapped there, where a lookup finds a module:
in the symbols of this file, whatever other module the lookup takes and whatever has been cached for the path. -/
def symbolName (f : Frames) (pid : Int32) (ip : UInt64) : Option QByteArray :=
  if (f.module? H pid ip).isSome then
    (f.fileModule H pid ip).bind (fun mod =>
      let info := foundSymbol H.sources {} mod (f.elf pid ip) (PerfAddressCache.symbolAddress ip H.sources.isArmArch)
      if info.isValid then some info.symname else none)
  else none

end Frames

/-- The symbol tables, and the log of what the lookups that missed the cache asked for, under their keys. -/
structure AskedFrames extends Frames where
  asked : List (CacheKey × Asked) := []

namespace AskedFrames

/-- What was last asked for under a key. -/
def last? (asked : List (CacheKey × Asked)) (k : CacheKey) : Option Asked :=
  (asked.reverse.find? (fun p => p.1 = k)).map Prod.snd

/-- The name that a lookup with a key is reported with: that of the first symbol of the first function of its
location. -/
def reported (asked : List (CacheKey × Asked)) (k : CacheKey) : Option QByteArray :=
  (last? asked k).bind (fun a => Asked.reported (asked.map Prod.snd) a.address)

variable (H : Host)

def apply (f : AskedFrames) (op : FrameOp) : AskedFrames where
  toFrames := f.toFrames.apply H op
  asked :=
    match op with
    | .lookupFrame pid ip isKernel =>
      if (f.cached pid ip).isValid then f.asked else f.asked ++ [(f.key pid ip, f.asks H pid ip isKernel)]
    | _ => f.asked

def run (ops : List FrameOp) : AskedFrames := ops.foldl (apply H) {}

theorem run_snoc (ops : List FrameOp) (op : FrameOp) : run H (ops ++ [op]) = (run H ops).apply H op := by
  rw [run, List.foldl_append, List.foldl_cons, List.foldl_nil, run]

theorem run_frames (ops : List FrameOp) : (run H ops).toFrames = Frames.run H ops := by
  induction ops using List.reverseRecOn with
  | nil => rfl
  | append_singleton ops op ih => rw [run_snoc, Frames.run_snoc, ← ih]; rfl

/-- No lookup finds debug information for its address. -/
def NoDwarf (pre : List FrameOp) : FrameOp → Prop
  | .lookupFrame pid ip _ =>
    hasNoDwarf (PerfAddressCache.symbolAddress ip H.sources.isArmArch) ((Frames.run H pre).module? H pid ip) = true
  | _ => True

/-- The symbol at the parent of the location that a lookup returns has the name of the symbol that is found for the
address in the file that is mapped there, also after all later calls. -/
def Named (ops : List FrameOp) : Prop := ∀ pre pid ip isKernel post, ops = pre ++ .lookupFrame pid ip isKernel :: post →
  ∀ n, (Frames.run H pre).symbolName H pid ip = some n →
    (Frames.run H ops).tables.resolver.nameOf ((Frames.run H pre).locationId H pid ip isKernel) = some n

/-- The first lookup of the function of the first lookup of the location, which is that of the last lookup with the
key, has found a symbol with the name. -/
def Kept (pre : List FrameOp) : FrameOp → Prop
  | .lookupFrame pid ip isKernel => ∀ n, (Frames.run H pre).symbolName H pid ip = some n →
      reported (run H (pre ++ [.lookupFrame pid ip isKernel])).asked ((Frames.run H pre).key pid ip) = some n
  | _ => True

instance (pre : List FrameOp) : ∀ op, Decidable (NoDwarf H pre op)
  | .lookupFrame _ _ _ => inferInstanceAs (Decidable (_ = true))
  | .registerElf _ _ => isTrue trivial
  | .initAfterFork _ _ => isTrue trivial
  | .dropSymbolTable _ => isTrue trivial
  | .updatePerfMap _ => isTrue trivial
  | .clearCache _ => isTrue trivial

instance (pre : List FrameOp) : ∀ op, Decidable (Kept H pre op)
  | .lookupFrame pid ip isKernel => inferInstanceAs (Decidable (∀ n ∈ (Frames.run H pre).symbolName H pid ip,
      reported (run H (pre ++ [.lookupFrame pid ip isKernel])).asked ((Frames.run H pre).key pid ip) = some n))
  | .registerElf _ _ => isTrue trivial
  | .initAfterFork _ _ => isTrue trivial
  | .dropSymbolTable _ => isTrue trivial
  | .updatePerfMap _ => isTrue trivial
  | .clearCache _ => isTrue trivial

/-! ## The log -/

/-- The definitions are those of the log, and what is cached was asked for. -/
structure Recalls (f : AskedFrames) : Prop where
  sound : f.toFrames.Sound H
  told : Told (f.asked.map Prod.snd) f.tables.resolver.toDefinitions
  cached : ∀ k entry, f.cachedAt k = some entry → ∃ a, last? f.asked k = some a ∧
    ∃ l, f.tables.resolver.locations.get? entry.locationId = some l ∧ l.key = a.address

variable {H} {f : AskedFrames}

theorem last?_snoc (asked : List (CacheKey × Asked)) (p : CacheKey × Asked) (k : CacheKey) :
    last? (asked ++ [p]) k = if p.1 = k then some p.2 else last? asked k := by
  rw [last?, List.reverse_append, List.reverse_singleton, List.singleton_append, List.find?_cons]
  by_cases hk : p.1 = k
  · rw [if_pos hk, decide_eq_true hk]
    rfl
  · rw [if_neg hk, decide_eq_false hk]
    rfl

theorem mem_of_last? {asked : List (CacheKey × Asked)} {k : CacheKey} {a : Asked} (h : last? asked k = some a) :
    a ∈ asked.map Prod.snd := by
  obtain ⟨p, hfind, rfl⟩ := Option.map_eq_some_iff.1 h
  exact List.mem_map_of_mem (List.mem_reverse.1 (List.mem_of_find?_eq_some hfind))

/-- A lookup in the cache that succeeds finds what is under the key. -/
theorem cachedAt_of_valid {f : Frames} {pid : Int32} {ip : UInt64} (h : (f.cached pid ip).isValid = true) :
    f.cachedAt (f.key pid ip) = some (f.cached pid ip) := by
  rw [f.cached_eq_cachedAt] at h ⊢
  cases hk : f.cachedAt (f.key pid ip) with
  | none =>
    rw [hk] at h
    cases h
  | some entry => rfl

/-- What a lookup caches, it caches under its key. -/
theorem cachedAt_miss {f : Frames} {pid : Int32} {ip : UInt64} (isKernel : Bool)
    (h : (f.cached pid ip).isValid = false) (k : CacheKey) :
    (f.apply H (.lookupFrame pid ip isKernel)).cachedAt k =
      if k = f.key pid ip then some (f.result H pid ip isKernel).1 else f.cachedAt k := by
  have hmiss := Frames.result_miss (H := H) isKernel h
  obtain ⟨c, hc, hstore⟩ := hmiss.cached
  have hinvalid := (f.tables.table pid).module_frame (H := H) ip (f.elf pid ip) |>.2.2
  rw [show (f.tables.table pid).elfs.findElf ip = f.elf pid ip from rfl, hinvalid] at hstore
  have hcache := congrArg Prod.fst hstore
  have htable := congrArg Prod.snd hstore
  dsimp only at hcache htable
  rw [Frames.apply_lookupFrame]
  unfold Frames.key
  cases k with
  | inl k =>
    obtain ⟨path, relAddr⟩ := k
    have hentry : c.entryAt path relAddr = f.tables.resolver.addressCache.entryAt path relAddr := by
      rw [PerfAddressCache.entryAt, hc, PerfAddressCache.entryAt]
    show (f.result H pid ip isKernel).2.1.addressCache.entryAt path relAddr = _
    rw [← hcache, PerfAddressCache.entryAt_store, hentry]
    cases hvalid : (f.elf pid ip).isValid with
    | true =>
      rw [if_pos rfl]
      simp only [true_and, Sum.inl.injEq, Prod.mk.injEq]
      rfl
    | false =>
      rw [if_neg (fun h => Bool.false_ne_true h.1), if_neg Bool.false_ne_true, if_neg Sum.inl_ne_inr]
      rfl
  | inr k =>
    obtain ⟨pid', ip'⟩ := k
    show ((SymbolTables.set _ pid _).table pid').invalidAddressCache.find ip' = _
    rw [SymbolTables.table_set]
    by_cases hpid : pid' = pid
    · rw [if_pos hpid, ← htable, hpid, PerfAddressCache.find_store]
      cases hvalid : (f.elf pid ip).isValid with
      | true =>
        rw [if_pos rfl, if_neg Sum.inr_ne_inl, if_neg (fun h => Bool.false_ne_true h.1.symm)]
        rfl
      | false =>
        rw [if_neg Bool.false_ne_true]
        simp only [Sum.inr.injEq, Prod.mk.injEq, true_and]
        rfl
    · rw [if_neg hpid, if_neg (by split <;> simp [hpid])]
      rfl

/-! ## Steps -/

theorem Recalls.withTables (h : f.Recalls H) {tables : SymbolTables}
    (hsound : ({ f.toFrames with tables := tables } : Frames).Sound H) (hresolver : tables.resolver = f.tables.resolver)
    (hcached : ∀ pid, (f.tables.table pid).ForgetsOnly (tables.table pid)) :
    ({ f with tables := tables } : AskedFrames).Recalls H := by
  refine ⟨hsound, by rw [hresolver]; exact h.told, fun k entry hk => ?_⟩
  rw [hresolver]
  refine h.cached k entry ?_
  cases k with
  | inl k =>
    obtain ⟨path, relAddr⟩ := k
    have hk : tables.resolver.addressCache.entryAt path relAddr = some entry := hk
    rw [hresolver] at hk
    exact hk
  | inr k => exact hcached k.1 k.2 entry hk

theorem apply_hit {pid : Int32} {ip : UInt64} (isKernel : Bool) (hcached : (f.cached pid ip).isValid = true) :
    f.apply H (.lookupFrame pid ip isKernel) = { f with tables := f.tables.set pid (f.tables.table pid) } := by
  unfold apply
  dsimp only
  rw [if_pos hcached, Frames.apply_lookupFrame, if_pos hcached, Frames.result_hit isKernel hcached]

theorem Recalls.hit (h : f.Recalls H) {pid : Int32} {ip : UInt64} (isKernel : Bool)
    (hcached : (f.cached pid ip).isValid = true) : (f.apply H (.lookupFrame pid ip isKernel)).Recalls H := by
  rw [apply_hit isKernel hcached]
  exact h.withTables (h.sound.withTables (Frames.pid_set h.sound.pids (h.sound.pids pid)) rfl) rfl
    (SymbolTables.set_forgetsOnly (PerfSymbolTable.forgetsOnly_of_eq rfl))

/-- A lookup that misses the cache logs what it asks for. -/
theorem Recalls.miss (h : f.Recalls H) {pid : Int32} {ip : UInt64} (isKernel : Bool)
    (hcached : (f.cached pid ip).isValid = false)
    (hdwarf : hasNoDwarf (PerfAddressCache.symbolAddress ip H.sources.isArmArch) (f.module? H pid ip) = true) :
    (f.apply H (.lookupFrame pid ip isKernel)).Recalls H ∧
      ∃ l, (f.apply H (.lookupFrame pid ip isKernel)).tables.resolver.locations.get?
        (f.locationId H pid ip isKernel) = some l ∧ l.key = (f.asks H pid ip isKernel).address := by
  obtain ⟨d, symbol, hle, hlocations, hsymbols, hname, hdefine⟩ := PerfSymbolTable.lookupFrame_asked
    isKernel (show (f.tables.resolver.addressCache.find ((f.tables.table pid).elfs.findElf ip) ip
      (f.tables.table pid).invalidAddressCache).isValid = false from hcached) hdwarf
  obtain ⟨hid, hdefinitions⟩ := Prod.mk.inj hdefine
  have hasked : (f.apply H (.lookupFrame pid ip isKernel)).asked =
      f.asked ++ [(f.key pid ip, f.asks H pid ip isKernel)] := if_neg (ne_true_of_eq_false hcached)
  have hresolver : (f.apply H (.lookupFrame pid ip isKernel)).tables.resolver.toDefinitions =
      (d.define (f.asks H pid ip isKernel).function (f.asks H pid ip isKernel).address (f.asks H pid ip isKernel).name
        symbol).2 := hdefinitions
  have htold := (h.told.strings hle hlocations hsymbols).define (a := f.asks H pid ip isKernel) hname
  obtain ⟨l, hl, hkey⟩ := d.get?_define (f.asks H pid ip isKernel).function (f.asks H pid ip isKernel).address
    (f.asks H pid ip isKernel).name symbol
  have hlocation : (f.apply H (.lookupFrame pid ip isKernel)).tables.resolver.locations.get?
      (f.locationId H pid ip isKernel) = some l := by
    rw [show (f.apply H (.lookupFrame pid ip isKernel)).tables.resolver.locations = _ from
      congrArg Definitions.locations hresolver, show f.locationId H pid ip isKernel = _ from hid]
    exact hl
  refine ⟨⟨h.sound.apply (.lookupFrame pid ip isKernel), ?_, fun k entry hk => ?_⟩, l, hlocation,
    hkey.trans (f.asks H pid ip isKernel).address_key⟩
  · rw [hresolver, hasked, List.map_append]
    exact htold
  · rw [show (f.apply H (.lookupFrame pid ip isKernel)).cachedAt k = _ from cachedAt_miss isKernel hcached k] at hk
    rw [hasked, last?_snoc]
    by_cases hkk : k = f.key pid ip
    · rw [if_pos hkk] at hk
      rw [if_pos hkk.symm]
      exact ⟨_, rfl, l, by rw [← Option.some.inj hk]; exact hlocation, hkey.trans (f.asks H pid ip isKernel).address_key⟩
    · rw [if_neg hkk] at hk
      rw [if_neg (fun he => hkk he.symm)]
      obtain ⟨a, ha, l', hl', hkey'⟩ := h.cached k entry hk
      refine ⟨a, ha, l', ?_, hkey'⟩
      rw [show (f.apply H (.lookupFrame pid ip isKernel)).tables.resolver.locations = _ from
        congrArg Definitions.locations hresolver]
      exact (hle.trans (d.define_le _ _ _ symbol)).locations.get? hl'

/-- **A lookup returns the location of the last lookup with its key.** -/
theorem Recalls.lookupFrame (h : f.Recalls H) (pid : Int32) (ip : UInt64) (isKernel : Bool)
    (hdwarf : hasNoDwarf (PerfAddressCache.symbolAddress ip H.sources.isArmArch) (f.module? H pid ip) = true) :
    (f.apply H (.lookupFrame pid ip isKernel)).Recalls H ∧
      ∃ a, last? (f.apply H (.lookupFrame pid ip isKernel)).asked (f.key pid ip) = some a ∧
        ∃ l, (f.apply H (.lookupFrame pid ip isKernel)).tables.resolver.locations.get?
          (f.locationId H pid ip isKernel) = some l ∧ l.key = a.address := by
  cases hcached : (f.cached pid ip).isValid with
  | true =>
    obtain ⟨a, ha, l, hl, hkey⟩ := h.cached _ _ (cachedAt_of_valid hcached)
    refine ⟨h.hit isKernel hcached, a, ?_, l, ?_, hkey⟩
    · rw [apply_hit isKernel hcached]
      exact ha
    · rw [apply_hit isKernel hcached, Frames.locationId_eq, Frames.result_hit isKernel hcached]
      exact hl
  | false =>
    obtain ⟨hrecalls, l, hl, hkey⟩ := h.miss isKernel hcached hdwarf
    refine ⟨hrecalls, f.asks H pid ip isKernel, ?_, l, hl, hkey⟩
    have hasked : (f.apply H (.lookupFrame pid ip isKernel)).asked =
        f.asked ++ [(f.key pid ip, f.asks H pid ip isKernel)] := if_neg (ne_true_of_eq_false hcached)
    rw [hasked, last?_snoc, if_pos rfl]

theorem Recalls.apply (h : f.Recalls H) {op : FrameOp}
    (hop : ∀ pid ip isKernel, op = .lookupFrame pid ip isKernel →
      hasNoDwarf (PerfAddressCache.symbolAddress ip H.sources.isArmArch) (f.module? H pid ip) = true) :
    (f.apply H op).Recalls H := by
  have hsound := h.sound.apply op
  cases op with
  | registerElf mmap buildId =>
    exact h.withTables hsound (f.tables.registerElf_resolver mmap buildId) (f.tables.registerElf_forgetsOnly mmap buildId)
  | initAfterFork childPid parentPid =>
    exact h.withTables hsound (f.tables.initAfterFork_resolver childPid parentPid)
      (f.tables.initAfterFork_forgetsOnly childPid parentPid)
  | dropSymbolTable pid => exact h.withTables hsound rfl (f.tables.dropSymbolTable_forgetsOnly pid)
  | updatePerfMap pid =>
    exact h.withTables hsound rfl (SymbolTables.set_forgetsOnly (PerfSymbolTable.forgetsOnly_of_eq rfl))
  | clearCache pid =>
    exact h.withTables hsound rfl (SymbolTables.set_forgetsOnly (PerfSymbolTable.clearCache_forgetsOnly _))
  | lookupFrame pid ip isKernel => exact (h.lookupFrame pid ip isKernel (hop pid ip isKernel rfl)).1

/-! ## Runs -/

theorem run_recalls (ops : List FrameOp) : Always (NoDwarf H) ops → (run H ops).Recalls H := by
  induction ops using List.reverseRecOn with
  | nil => exact fun _ => ⟨Frames.run_sound [], told_empty, fun k entry hk => (by cases k <;> cases hk)⟩
  | append_singleton ops op ih =>
    intro h
    obtain ⟨hops, hop⟩ := History.always_snoc.1 h
    rw [run_snoc]
    refine (ih hops).apply ?_
    rintro pid ip isKernel rfl
    rw [run_frames]
    exact hop

theorem apply_grows (f : AskedFrames) (op : FrameOp) : f.asked <+: (f.apply H op).asked ∧
    f.tables.resolver.locations.Le (f.apply H op).tables.resolver.locations := by
  cases op with
  | lookupFrame pid ip isKernel =>
    cases hcached : (f.cached pid ip).isValid with
    | true =>
      rw [apply_hit isKernel hcached]
      exact ⟨List.prefix_refl _, .refl _⟩
    | false =>
      have hasked : (f.apply H (.lookupFrame pid ip isKernel)).asked =
          f.asked ++ [(f.key pid ip, f.asks H pid ip isKernel)] := if_neg (ne_true_of_eq_false hcached)
      rw [hasked]
      exact ⟨List.prefix_append _ _, (Frames.result_miss isKernel hcached).sends.locations_le⟩
  | registerElf mmap buildId =>
    refine ⟨List.prefix_refl _, ?_⟩
    rw [show (f.apply H (.registerElf mmap buildId)).tables.resolver = f.tables.resolver from
      f.tables.registerElf_resolver mmap buildId]
    exact .refl _
  | initAfterFork childPid parentPid =>
    refine ⟨List.prefix_refl _, ?_⟩
    rw [show (f.apply H (.initAfterFork childPid parentPid)).tables.resolver = f.tables.resolver from
      f.tables.initAfterFork_resolver childPid parentPid]
    exact .refl _
  | dropSymbolTable pid => exact ⟨List.prefix_refl _, .refl _⟩
  | updatePerfMap pid => exact ⟨List.prefix_refl _, .refl _⟩
  | clearCache pid => exact ⟨List.prefix_refl _, .refl _⟩

theorem run_grows (ops more : List FrameOp) : (run H ops).asked <+: (run H (ops ++ more)).asked ∧
    (run H ops).tables.resolver.locations.Le (run H (ops ++ more)).tables.resolver.locations := by
  induction more using List.reverseRecOn with
  | nil =>
    rw [List.append_nil]
    exact ⟨List.prefix_refl _, .refl _⟩
  | append_singleton more op ih =>
    obtain ⟨hasked, hlocations⟩ := apply_grows (H := H) (run H (ops ++ more)) op
    rw [← List.append_assoc, run_snoc]
    exact ⟨ih.1.trans hasked, ih.2.trans hlocations⟩

/-- **What the location of a lookup is reported with is read off the log**, then and at any later point. -/
theorem nameOf_run (pre post : List FrameOp) (pid : Int32) (ip : UInt64) (isKernel : Bool)
    (h : Always (NoDwarf H) (pre ++ .lookupFrame pid ip isKernel :: post)) :
    (run H (pre ++ .lookupFrame pid ip isKernel :: post)).tables.resolver.nameOf
        ((run H pre).locationId H pid ip isKernel) =
      reported (run H (pre ++ [.lookupFrame pid ip isKernel])).asked ((run H pre).key pid ip) := by
  have hdwarf : hasNoDwarf (PerfAddressCache.symbolAddress ip H.sources.isArmArch) ((run H pre).module? H pid ip) =
      true := by
    rw [run_frames]
    exact h pre _ post rfl
  obtain ⟨-, a, ha, l, hl, hkey⟩ :=
    (run_recalls pre (h.of_prefix (List.prefix_append _ _))).lookupFrame pid ip isKernel hdwarf
  obtain ⟨⟨more, hmore⟩, hlocations⟩ := run_grows (H := H) (pre ++ [.lookupFrame pid ip isKernel]) post
  rw [← run_snoc] at ha hl
  rw [List.append_assoc, List.singleton_append] at hmore hlocations
  rw [(run_recalls _ h).told.nameOf (hlocations.get? hl), hkey, reported, ha, Option.bind_some, ← hmore, List.map_append,
    Asked.reported_append (mem_of_last? ha)]

/-- A machine where every file has one symbol, at the same offset and named after the file. -/
def oneSymbolFiles : Host where
  findFile := fun path fileName _ => { isFile := true, absoluteFilePath := path, fileName := fileName }
  kernelFile := fun _ => {}
  isElf := fun _ => true
  readPerfMap := fun _ => []
  addrModule := fun dwfl addr => dwfl.find? (fun m => m.start ≤ addr ∧ addr < m.stop)
  reportElf := fun _ info => some
    { name := info.originalFileName, path := info.originalPath, start := info.addr, stop := info.addr + info.length }
  symbolsOf := fun m => { symbols := [{ symAddr := m.start + 0x100, value := 0x100, size := 0x100, name := m.path }] }
  attachState := fun _ => false
  threadFrames := fun _ _ _ => []

/-- A file mapped by the first process. -/
def fileAt (addr : UInt64) (path : String) : PerfRecordMmap where
  pid := 1
  tid := 1
  addr := addr
  len := 0x1000
  filename := QByteArray.ofString path

end AskedFrames

end PerfParser
