import PerfParser.DwflRanges
import PerfParser.SymbolTables
/-!
# ElfBases — the mappings that `module` goes back to (`perfsymboltable.cpp`, `perfelfmap.cpp`)

`module` calls itself with the mapping at the base address of a mapping.  The base address is taken from the last
mapping of a file that was registered at its start, when the new one is after it, and no merge, fragment, reported range
or copy for a forked process changes that.  So each call is for a mapping that starts before the last one, and there are
no more calls than mappings (`run_bases`).
-/
namespace PerfParser

open Spans

/-- A base address is before the mapping. -/
def ElfInfo.BasedBefore (e : ElfInfo) : Prop := e.hasBaseAddr = true → e.baseAddr < e.addr

theorem ElfInfo.basedBefore_of_baseAddr {e : ElfInfo} (h : e.baseAddr = INVALID_BASE_ADDR ∨ e.baseAddr < e.addr) :
    e.BasedBefore := by
  intro hhas
  rcases h with h | h
  · rw [hasBaseAddr, h] at hhas
    cases hhas
  · exact h

namespace PerfElfMap

/-! ## One map -/

/-- No fragment has a base address. -/
theorem scan_newElfs (originalPath : QByteArray) : ∀ (l : List ElfInfo) (s : Scan) (index : Nat),
    (∀ e ∈ s.newElfs, e.baseAddr = INVALID_BASE_ADDR) →
      ∀ e ∈ (scan originalPath s index l).1.newElfs, e.baseAddr = INVALID_BASE_ADDR
  | [], _, _, h => h
  | i :: rest, s, index, h => by
    have hoverwrite : ∀ s : Scan, (∀ e ∈ s.newElfs, e.baseAddr = INVALID_BASE_ADDR) →
        ∀ e ∈ (s.overwrite index i).newElfs, e.baseAddr = INVALID_BASE_ADDR := by
      intro s hs e he
      rw [overwrite_newElfs] at he
      rcases List.mem_append.1 he with he | he
      · exact hs e he
      · exact fragment_baseAddr he
    unfold scan
    split
    · split
      · exact scan_newElfs originalPath rest s (index + 1) h
      · split
        · dsimp only
          split
          · exact h
          · exact scan_newElfs originalPath rest _ (index + 1) (hoverwrite (s.extend i) h)
        · split
          · exact scan_newElfs originalPath rest s (index + 1) h
          · exact scan_newElfs originalPath rest _ (index + 1) (hoverwrite s h)
    · exact h

/-- **A registration keeps the base addresses before the mappings.** -/
theorem registerElf_basedBefore {map : PerfElfMap} (h : ∀ e ∈ map.elfs, e.BasedBefore) (m : Mapping) :
    ∀ e ∈ (map.registerElf m).1.elfs, e.BasedBefore := by
  rcases hscan : scan m.originalPath (startScan m) 0 map.elfs with ⟨s, _ | _⟩
  · obtain ⟨b, helfs, hb⟩ := registerElf_elfs hscan
    have hnew := scan_newElfs m.originalPath map.elfs (startScan m) 0 (fun e he => nomatch he)
    rw [hscan] at hnew
    intro e he
    rw [helfs] at he
    rcases (mem_foldl_insertAt _).1 he with he | he
    · rcases List.mem_append.1 he with he | he
      · exact ElfInfo.basedBefore_of_baseAddr (.inl (hnew e he))
      · rw [List.mem_singleton.1 he]
        exact ElfInfo.basedBefore_of_baseAddr hb
    · exact h e ((removeAll_sublist map.elfs s.removedElfs).subset he)
  · rw [registerElf_contained hscan]
    exact h

theorem updateElf_basedBefore {map : PerfElfMap} (h : ∀ e ∈ map.elfs, e.BasedBefore) (addr dwflStart dwflEnd : UInt64) :
    ∀ e ∈ (map.updateElf addr dwflStart dwflEnd).elfs, e.BasedBefore := by
  rcases setDwflRange_spec addr dwflStart dwflEnd map.elfs with ⟨-, hset⟩ | ⟨pre, i, post, hsplit, -, hset⟩
  · rw [updateElf, hset]
    exact h
  · rw [hsplit] at h
    rw [updateElf, hset]
    intro e he
    rcases List.mem_append.1 he with he | he
    · exact h e (List.mem_append_left _ he)
    · rcases List.mem_cons.1 he with rfl | he
      · exact h i (List.mem_append_right _ List.mem_cons_self)
      · exact h e (List.mem_append_right _ (List.mem_cons_of_mem _ he))

/-- In the order of the addresses, as `std::lower_bound` and `std::upper_bound` ask for. -/
def Ascending (l : List ElfInfo) : Prop := l.Pairwise (fun a b => a.lo ≤ b.lo)

theorem registerElf_ascending {map : PerfElfMap} (h : Ascending map.elfs) (m : Mapping) :
    Ascending (map.registerElf m).1.elfs := by
  rcases hscan : scan m.originalPath (startScan m) 0 map.elfs with ⟨s, _ | _⟩
  · obtain ⟨b, helfs, -⟩ := registerElf_elfs hscan
    rw [helfs]
    exact ascending_foldl_insertAt ElfInfo.lo (h.sublist (removeAll_sublist map.elfs s.removedElfs))
  · rw [registerElf_contained hscan]
    exact h

theorem updateElf_ascending {map : PerfElfMap} (h : Ascending map.elfs) (addr dwflStart dwflEnd : UInt64) :
    Ascending (map.updateElf addr dwflStart dwflEnd).elfs := by
  have hlos : (map.updateElf addr dwflStart dwflEnd).elfs.map ElfInfo.lo = map.elfs.map ElfInfo.lo := by
    rcases setDwflRange_spec addr dwflStart dwflEnd map.elfs with ⟨-, hset⟩ | ⟨pre, i, post, hsplit, -, hset⟩
    · rw [updateElf, hset]
    · rw [updateElf, hset, hsplit, List.map_append, List.map_append]
      rfl
  have hmap : (map.elfs.map ElfInfo.lo).Pairwise (· ≤ ·) := List.pairwise_map.2 h
  rw [← hlos] at hmap
  exact List.pairwise_map.1 hmap

theorem findElf_mem (map : PerfElfMap) (ip : UInt64) : map.findElf ip ∈ map.elfs ∨ map.findElf ip = {} := by
  unfold findElf
  cases hseek : seek (fun e : ElfInfo => e.addr.toNat) ip.toNat map.elfs with
  | none => exact .inr rfl
  | some i =>
    have hi := (mem_of_seek _ hseek).1
    dsimp only
    split
    · split
      · exact .inl hi
      · exact .inr rfl
    · split
      · exact .inl hi
      · exact .inr rfl

/-! ## Going back to the base -/

/-- The mapping that `module` calls itself with for `elf`, if it does. -/
def base? (map : PerfElfMap) (elf : ElfInfo) : Option ElfInfo :=
  if elf.hasBaseAddr ∧ elf.baseAddr ≠ elf.addr then
    let base := map.findElf elf.baseAddr
    if base.addr = elf.baseAddr ∧ base.pgoff = 0 ∧ elf.originalPath = base.originalPath ∧ elf.addr ≠ base.addr then
      some base
    else none
  else none

theorem base?_empty (map : PerfElfMap) : map.base? {} = none := rfl

/-- **A base is before its mapping**, and one of the map, if it is one at all. -/
theorem base?_spec {map : PerfElfMap} {elf base : ElfInfo} (helf : elf.BasedBefore) (h : map.base? elf = some base) :
    base.addr < elf.addr ∧ (base ∈ map.elfs ∨ base = {}) := by
  unfold base? at h
  split at h
  · rename_i hhas
    dsimp only at h
    split at h
    · rename_i hbase
      rw [← Option.some.inj h]
      refine ⟨?_, findElf_mem map elf.baseAddr⟩
      rw [hbase.1]
      exact helf hhas.1
    · cases h
  · cases h

/-- The mappings that start before `elf`. -/
def before (map : PerfElfMap) (elf : ElfInfo) : Nat := map.elfs.countP (fun e => e.addr < elf.addr)

theorem before_lt {map : PerfElfMap} {elf base : ElfInfo} (hmem : base ∈ map.elfs) (hlt : base.addr < elf.addr) :
    map.before base < map.before elf := by
  obtain ⟨pre, post, hsplit⟩ := List.append_of_mem hmem
  have hmono (l : List ElfInfo) : l.countP (fun e => decide (e.addr < base.addr)) ≤
      l.countP (fun e => decide (e.addr < elf.addr)) :=
    List.countP_mono_left (fun e _ he => decide_eq_true (UInt64.lt_trans (of_decide_eq_true he) hlt))
  have hpre := hmono pre
  have hpost := hmono post
  unfold before
  rw [hsplit, List.countP_append, List.countP_append, List.countP_cons, List.countP_cons,
    if_neg (by simp), if_pos (decide_eq_true hlt)]
  omega

theorem before_le (map : PerfElfMap) (elf : ElfInfo) : map.before elf ≤ map.elfs.length := List.countP_le_length

end PerfElfMap

namespace PerfSymbolTable

open PerfElfMap

variable {H : Host} {t : PerfSymbolTable} {addr : UInt64}

variable (H) in
/-- What `module` does when it does not call itself. -/
def moduleOf (t : PerfSymbolTable) (addr : UInt64) (elf : ElfInfo) : Option Module × PerfSymbolTable :=
  let mod :=
    match H.addrModule t.dwfl addr with
    | some mod => some mod
    | none => if elf.isValid then H.addrModule t.dwfl (elf.addr - elf.pgoff) else none
  match mod with
  | some mod => if elf.addr - elf.pgoff = mod.start then (some (H.symbolsOf mod), t) else t.reportElf H elf
  | none => t.reportElf H elf

variable (H t addr) in
/-- `module` returns a result for `elf`, after finitely many calls of itself. -/
inductive ModuleReturns : ElfInfo → Option Module × PerfSymbolTable → Prop
  | here {elf : ElfInfo} (h : t.elfs.base? elf = none) : ModuleReturns elf (t.moduleOf H addr elf)
  | base {elf base : ElfInfo} {r : Option Module × PerfSymbolTable} (h : t.elfs.base? elf = some base)
      (hr : ModuleReturns base r) : ModuleReturns elf r

theorem moduleElf_succ (map : PerfElfMap) (fuel : Nat) (elf : ElfInfo) :
    moduleElf map (fuel + 1) elf = match map.base? elf with
      | none => elf
      | some base => moduleElf map fuel base := by
  rw [moduleElf, base?]
  split
  · dsimp only
    split <;> rfl
  · rfl

theorem moduleElf_of_none {map : PerfElfMap} {elf : ElfInfo} (h : map.base? elf = none) (fuel : Nat) :
    moduleElf map fuel elf = elf := by
  cases fuel with
  | zero => rfl
  | succ fuel => rw [moduleElf_succ, h]

/-- **As many calls as there are mappings before `elf` are enough.** -/
theorem moduleReturns_moduleElf (h : ∀ e ∈ t.elfs.elfs, e.BasedBefore) : ∀ (fuel : Nat) {elf : ElfInfo},
    elf.BasedBefore → t.elfs.before elf < fuel →
      ModuleReturns H t addr elf (t.moduleOf H addr (moduleElf t.elfs fuel elf))
  | fuel + 1, elf, helf, hfuel => by
    cases hbase : t.elfs.base? elf with
    | none =>
      rw [moduleElf_of_none hbase]
      exact .here hbase
    | some base =>
      obtain ⟨hlt, hmem⟩ := base?_spec helf hbase
      rw [moduleElf_succ, hbase]
      refine .base hbase ?_
      rcases hmem with hmem | rfl
      · have hbefore := before_lt hmem hlt
        exact moduleReturns_moduleElf h fuel (h base hmem) (by omega)
      · -- what is found at no mapping has no base
        dsimp only
        rw [moduleElf_of_none (base?_empty t.elfs)]
        exact .here (base?_empty t.elfs)

theorem ModuleReturns.unique {elf : ElfInfo} {r r' : Option Module × PerfSymbolTable}
    (h : ModuleReturns H t addr elf r) (h' : ModuleReturns H t addr elf r') : r = r' := by
  induction h with
  | here hnone =>
    cases h' with
    | here => rfl
    | base hbase => rw [hnone] at hbase; cases hbase
  | base hbase _ ih =>
    cases h' with
    | here hnone => rw [hnone] at hbase; cases hbase
    | base hbase' hr' =>
      rw [hbase] at hbase'
      cases hbase'
      exact ih hr'

/-- **`module` returns for everything that is found.** -/
theorem moduleReturns_findElf (h : ∀ e ∈ t.elfs.elfs, e.BasedBefore) (ip : UInt64) :
    ModuleReturns H t addr (t.elfs.findElf ip) (t.module H addr (t.elfs.findElf ip)) := by
  have helf : (t.elfs.findElf ip).BasedBefore := by
    rcases findElf_mem t.elfs ip with hmem | hnone
    · exact h _ hmem
    · rw [hnone]
      exact ElfInfo.basedBefore_of_baseAddr (.inl rfl)
  exact moduleReturns_moduleElf h (t.elfs.elfs.length + 1) helf (Nat.lt_succ_of_le (before_le t.elfs _))

end PerfSymbolTable

/-! ## Whole runs -/

namespace ElfMaps

open PerfElfMap

theorem step_basedBefore {maps : ElfMaps} (h : ∀ map, ∀ e ∈ (maps map).elfs, e.BasedBefore) (op : ElfMapOp) :
    ∀ map, ∀ e ∈ (maps.step op map).elfs, e.BasedBefore := by
  have hupdate := forall_update_iff (P := fun map => ∀ e ∈ map.elfs, e.BasedBefore) h
  cases op with
  | map op =>
    cases op with
    | registerElf process mapping => exact (hupdate process _).2 (registerElf_basedBefore (h process) mapping)
    | copyDataFrom process parent => exact (hupdate process _).2 (h parent)
  | updateElf process addr dwflStart dwflEnd =>
    exact (hupdate process _).2 (updateElf_basedBefore (h process) addr dwflStart dwflEnd)

theorem run_basedBefore (ops : List ElfMapOp) : ∀ map, ∀ e ∈ (run ops map).elfs, e.BasedBefore := by
  induction ops using List.reverseRecOn with
  | nil => exact fun _ e he => nomatch he
  | append_singleton ops op ih =>
    rw [run, List.foldl_append, ← run]
    exact step_basedBefore ih op

/-- **The mappings are in order after any run**, also where they wrap around or overlap. -/
theorem run_ascending (ops : List ElfMapOp) : ∀ map, Ascending (run ops map).elfs := by
  induction ops using List.reverseRecOn with
  | nil => exact fun _ => List.Pairwise.nil
  | append_singleton ops op ih =>
    have hupdate := forall_update_iff (P := fun map => Ascending map.elfs) ih
    rw [run, List.foldl_append, ← run]
    cases op with
    | map op =>
      cases op with
      | registerElf process mapping => exact (hupdate process _).2 (registerElf_ascending (ih process) mapping)
      | copyDataFrom process parent => exact (hupdate process _).2 (ih parent)
    | updateElf process addr dwflStart dwflEnd =>
      exact (hupdate process _).2 (updateElf_ascending (ih process) addr dwflStart dwflEnd)

/-- **Every base address is before its mapping**, after any registrations, reported ranges and copies, and so `module`
returns for every address and everything that is found. -/
theorem run_bases (ops : List ElfMapOp) (process : Nat) :
    (∀ e ∈ (run ops process).elfs, e.hasBaseAddr = true → e.baseAddr < e.addr) ∧
      ∀ (H : Host) (t : PerfSymbolTable) (addr ip : UInt64),
        PerfSymbolTable.ModuleReturns H { t with elfs := run ops process } addr ((run ops process).findElf ip)
          (PerfSymbolTable.module H { t with elfs := run ops process } addr ((run ops process).findElf ip)) := by
  have hbased := run_basedBefore ops process
  refine ⟨hbased, fun H t addr ip => ?_⟩
  exact PerfSymbolTable.moduleReturns_findElf (t := { t with elfs := run ops process }) hbased ip

end ElfMaps

end PerfParser
