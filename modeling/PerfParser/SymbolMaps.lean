import PerfParser.SymbolTables
import Mathlib.Data.List.InsertIdx
/-!
# SymbolMaps — what a call does to the maps of the processes

The range that libdwfl gives a mapping is not part of the mapping: `plain` leaves it out.  Without it only an mmap, a
fork and an exit change a map, each in its own way (`exec_map`), and the analysis of a sample changes none
(`analyze_sameMaps`).
-/
namespace PerfParser

/-! ## Mappings without what libdwfl adds -/

/-- A mapping without the range that libdwfl gave it. -/
def ElfInfo.plain (e : ElfInfo) : ElfInfo := { e with dwflStart := 0, dwflEnd := 0 }

namespace PerfElfMap

def plain (map : PerfElfMap) : PerfElfMap := { map with elfs := map.elfs.map ElfInfo.plain }

theorem setDwflRange_plain (addr dwflStart dwflEnd : UInt64) : ∀ l : List ElfInfo,
    (setDwflRange addr dwflStart dwflEnd l).map ElfInfo.plain = l.map ElfInfo.plain
  | [] => rfl
  | [i] => by
    unfold setDwflRange
    by_cases hi : i.addr ≤ addr
    · rw [if_pos hi]
      rfl
    · rw [if_neg hi]
  | i :: j :: rest => by
    have ih := setDwflRange_plain addr dwflStart dwflEnd (j :: rest)
    unfold setDwflRange
    by_cases hi : i.addr ≤ addr
    · rw [if_pos hi]
      by_cases hj : j.addr ≤ addr
      · simp only [hj, if_true, List.map_cons, ih]
      · simp only [hj, if_false, List.map_cons]
        rfl
    · rw [if_neg hi]

/-- **Libdwfl's range is all `updateElf` changes.** -/
theorem updateElf_plain (map : PerfElfMap) (addr dwflStart dwflEnd : UInt64) :
    (map.updateElf addr dwflStart dwflEnd).plain = map.plain := by
  unfold updateElf plain
  rw [setDwflRange_plain]

def Scan.plain (s : Scan) : Scan :=
  { s with newElfs := s.newElfs.map ElfInfo.plain, invalidated := s.invalidated.map ElfInfo.plain }

theorem overwrite_plain (s : Scan) (index : Nat) (i : ElfInfo) :
    (s.overwrite index i).plain = s.plain.overwrite index i.plain := by
  unfold Scan.overwrite Scan.plain
  by_cases hbefore : i.addr < s.addr <;> by_cases hafter : i.addr + i.length > s.addrEnd <;>
    simp [ElfInfo.plain, ElfInfo.make, hbefore, hafter]

theorem scan_plain (path : QByteArray) : ∀ (l : List ElfInfo) (s : Scan) (index : Nat),
    scan path s.plain index (l.map ElfInfo.plain) = ((scan path s index l).1.plain, (scan path s index l).2)
  | [], s, index => rfl
  | i :: rest, s, index => by
    have ih := scan_plain path rest
    have hoverwrite := overwrite_plain s index i
    have hextend := overwrite_plain (s.extend i) index i
    rw [List.map_cons]
    unfold scan
    simp only [show s.plain.addr = s.addr from rfl, show s.plain.addrEnd = s.addrEnd from rfl,
      show s.plain.pgoff = s.pgoff from rfl, show i.plain.addr = i.addr from rfl,
      show i.plain.length = i.length from rfl, show i.plain.pgoff = i.pgoff from rfl,
      show i.plain.originalPath = i.originalPath from rfl, show s.plain.extend i.plain = (s.extend i).plain from rfl,
      show (s.extend i).plain.addr = (s.extend i).addr from rfl,
      show (s.extend i).plain.len = (s.extend i).len from rfl, ← hoverwrite, ← hextend, ih]
    split
    · split
      · rfl
      · split
        · split <;> rfl
        · split <;> rfl
    · rfl

theorem insertElf_plain (l : List ElfInfo) (e : ElfInfo) :
    (insertElf l e).map ElfInfo.plain = insertElf (l.map ElfInfo.plain) e.plain := by
  unfold insertElf Spans.insertAt
  rw [List.map_append, List.map_cons, List.takeWhile_map, List.dropWhile_map]
  rfl

theorem insertElfs_plain : ∀ (new l : List ElfInfo),
    (new.foldl insertElf l).map ElfInfo.plain = (new.map ElfInfo.plain).foldl insertElf (l.map ElfInfo.plain)
  | [], _ => rfl
  | e :: new, l => by
    rw [List.foldl_cons, insertElfs_plain new, insertElf_plain]
    rfl

theorem removeAll_plain (l : List ElfInfo) : ∀ removed : List Nat,
    (removeAll l removed).map ElfInfo.plain = removeAll (l.map ElfInfo.plain) removed
  | [] => rfl
  | index :: removed => by
    have ih := removeAll_plain l removed
    unfold removeAll at ih ⊢
    rw [List.foldr_cons, List.foldr_cons, ← ih, List.eraseIdx_map]

/-- A new mapping has no range of libdwfl's. -/
theorem rebase_plain (lastBase : ElfInfo) {elf : ElfInfo} (h : elf.plain = elf) (path : QByteArray) :
    (rebase lastBase elf path).1.plain = (rebase lastBase elf path).1 := by
  unfold rebase
  split
  · split
    · exact congrArg (fun e : ElfInfo => { e with baseAddr := lastBase.addr }) h
    · split <;> exact h
  · exact h

/-- **A registration does not look at libdwfl's ranges.** -/
theorem registerElf_plain (map : PerfElfMap) (m : Mapping) :
    (map.registerElf m).1.plain = (map.plain.registerElf m).1 := by
  have hscan := scan_plain m.originalPath map.elfs (startScan m) 0
  unfold registerElf
  rw [show scan m.originalPath (startScan m) 0 map.plain.elfs = _ from hscan]
  generalize scan m.originalPath (startScan m) 0 map.elfs = r
  obtain ⟨s, contained⟩ := r
  cases contained with
  | true => rfl
  | false =>
    have hplain : (ElfInfo.make m.fullPath s.addr s.len s.pgoff m.originalFileName m.originalPath).plain = _ := rfl
    have helf := rebase_plain map.lastBase hplain m.originalPath
    simp only [plain, Scan.plain, insertElfs_plain, removeAll_plain, List.map_append, List.map_cons, List.map_nil, helf]

theorem registerElf_ne_nil (map : PerfElfMap) (m : Mapping) : (map.registerElf m).1.elfs ≠ [] := by
  unfold registerElf
  cases hscan : scan m.originalPath (startScan m) 0 map.elfs with
  | mk s contained =>
    cases contained with
    | true =>
      intro hnil
      rw [show map.elfs = [] from hnil] at hscan
      cases hscan
    | false =>
      dsimp only
      rw [List.foldl_append, List.foldl_cons, List.foldl_nil]
      unfold insertElf Spans.insertAt
      simp

end PerfElfMap

/-! ## One process -/

namespace PerfSymbolTable

variable (H : Host)

/-- Invalidated mappings make the cache dirty, and nothing else. -/
theorem foldl_aboutToInvalidate : ∀ (invalidated : List ElfInfo) (t : PerfSymbolTable),
    (invalidated.foldl (aboutToInvalidate H) t).elfs = t.elfs ∧
      (invalidated.foldl (aboutToInvalidate H) t).pid = t.pid ∧
      (invalidated.foldl (aboutToInvalidate H) t).invalidAddressCache = t.invalidAddressCache
  | [], _ => ⟨rfl, rfl, rfl⟩
  | elf :: invalidated, t => by
    obtain ⟨helfs, hpid, hcache⟩ := foldl_aboutToInvalidate invalidated (t.aboutToInvalidate H elf)
    rw [List.foldl_cons, helfs, hpid, hcache]
    unfold aboutToInvalidate
    split <;> exact ⟨rfl, rfl, rfl⟩

theorem registerElf_elfs (t : PerfSymbolTable) (mmap : PerfRecordMmap) (buildId : QByteArray) :
    (t.registerElf H mmap buildId).elfs = (t.elfs.registerElf (mappingOf H mmap buildId)).1 := by
  have h := (foldl_aboutToInvalidate H (t.elfs.registerElf (mappingOf H mmap buildId)).2
    { t with elfs := (t.elfs.registerElf (mappingOf H mmap buildId)).1 }).1
  unfold registerElf
  dsimp only
  split <;> exact h

theorem reportElf_plain (t : PerfSymbolTable) (info : ElfInfo) : (t.reportElf H info).2.elfs.plain = t.elfs.plain := by
  unfold reportElf
  split
  · rfl
  · split
    · rfl
    · exact t.elfs.updateElf_plain _ _ _

theorem module_plain (t : PerfSymbolTable) (addr : UInt64) (elf : ElfInfo) :
    (t.module H addr elf).2.elfs.plain = t.elfs.plain := by
  unfold module
  dsimp only
  split
  · split
    · rfl
    · exact t.reportElf_plain H _
  · exact t.reportElf_plain H _

theorem attachDwfl_elfs (t : PerfSymbolTable) (sample : PerfRecordSample) :
    (t.attachDwfl H sample).2.elfs = t.elfs := by
  unfold attachDwfl
  split
  · rfl
  · split
    · rfl
    · split <;> rfl

theorem lookupFrame_plain (sources : SymbolSources) (r : Resolver) (t : PerfSymbolTable) (ip : UInt64)
    (isKernel : Bool) : (t.lookupFrame sources (module H) r ip isKernel).2.2.elfs.plain = t.elfs.plain := by
  unfold lookupFrame
  dsimp only
  split
  · rfl
  · exact t.module_plain H ip _

end PerfSymbolTable

/-! ## All processes -/

namespace SymbolTables

/-- The map of a process. -/
def map (s : SymbolTables) (pid : Int32) : PerfElfMap := (s.table pid).elfs.plain

/-- The maps of all processes stay as they are. -/
def SameMaps (s s' : SymbolTables) : Prop := ∀ pid, s'.map pid = s.map pid

theorem SameMaps.refl (s : SymbolTables) : s.SameMaps s := fun _ => rfl

theorem SameMaps.trans {s s' s'' : SymbolTables} (h : s.SameMaps s') (h' : s'.SameMaps s'') : s.SameMaps s'' :=
  fun pid => (h' pid).trans (h pid)

theorem table_set (s : SymbolTables) (pid pid' : Int32) (t : PerfSymbolTable) :
    (s.set pid t).table pid' = if pid' = pid then t else s.table pid' := by
  unfold table set
  rw [QHash.find_insert]
  by_cases h : pid' = pid <;> simp [h]

theorem map_set (s : SymbolTables) (pid pid' : Int32) (t : PerfSymbolTable) :
    (s.set pid t).map pid' = if pid' = pid then t.elfs.plain else s.map pid' := by
  unfold map
  rw [table_set]
  by_cases h : pid' = pid <;> simp [h]

theorem sameMaps_set {s : SymbolTables} {pid : Int32} {t : PerfSymbolTable} (h : t.elfs.plain = s.map pid) :
    s.SameMaps (s.set pid t) := by
  intro pid'
  rw [map_set]
  by_cases hpid : pid' = pid
  · rw [if_pos hpid, h, hpid]
  · rw [if_neg hpid]

theorem table_symbolTable (s : SymbolTables) (pid pid' : Int32) : (s.symbolTable pid).table pid' = s.table pid' := by
  unfold symbolTable
  split
  · rfl
  · rename_i h
    rw [table_set]
    by_cases hpid : pid' = pid
    · have hnone : s.symbolTables.find pid = none := by
        simpa [QHash.contains] using h
      rw [if_pos hpid, hpid, table, hnone]
      rfl
    · rw [if_neg hpid]

theorem symbolTable_sameMaps (s : SymbolTables) (pid : Int32) : s.SameMaps (s.symbolTable pid) := by
  intro pid'
  unfold map
  rw [table_symbolTable]

theorem resolveString_sameMaps (s : SymbolTables) (string : QByteArray) : s.SameMaps (s.resolveString string).1 :=
  SameMaps.refl s

theorem sendEventFormat_sameMaps (s : SymbolTables) (format : EventFormat) : s.SameMaps (s.sendEventFormat format) := by
  unfold sendEventFormat
  generalize [format.system, format.name] ++ (format.commonFields ++ format.fields).map FormatField.name = names
  induction names generalizing s with
  | nil => exact SameMaps.refl s
  | cons name names ih => exact (s.resolveString_sameMaps name).trans (ih (s.resolveString name).1)

variable (H : Host)

/-! ## Samples -/

theorem lookupFrame_sameMaps (s : SymbolTables) (pid : Int32) (ip : UInt64) (isKernel : Bool) :
    s.SameMaps (s.lookupFrame H pid ip isKernel).2 := by
  intro pid'
  exact sameMaps_set (s := { s with resolver := _ }) ((s.table pid).lookupFrame_plain H H.sources s.resolver ip isKernel)
    pid'

theorem attachDwfl_sameMaps (s : SymbolTables) (pid : Int32) (sample : PerfRecordSample) :
    s.SameMaps (s.set pid ((s.table pid).attachDwfl H sample).2) :=
  sameMaps_set (congrArg PerfElfMap.plain ((s.table pid).attachDwfl_elfs H sample))

theorem module_sameMaps (s : SymbolTables) (pid : Int32) (addr : UInt64) (elf : ElfInfo) :
    s.SameMaps (s.set pid ((s.table pid).module H addr elf).2) := sameMaps_set ((s.table pid).module_plain H addr elf)

theorem reportIp_sameMaps (sample : PerfRecordSample) (c : Callchain) (ip : UInt64) :
    c.tables.SameMaps (c.reportIp H sample ip).2.tables :=
  (c.tables.attachDwfl_sameMaps H c.pid sample).trans (lookupFrame_sameMaps H _ c.pid ip c.isKernel)

theorem step_sameMaps (sample : PerfRecordSample) (c : Callchain) (ip : UInt64) :
    c.tables.SameMaps (c.step H sample ip).2.tables := by
  have hfirst : c.tables.SameMaps (if !c.addedUserFrames && !c.isKernel && ip != sample.ip then
      c.reportIp H sample sample.ip else (true, c)).2.tables := by
    split
    · exact reportIp_sameMaps H sample c sample.ip
    · exact SameMaps.refl _
  unfold Callchain.step
  split
  · split
    · split
      · exact c.tables.symbolTable_sameMaps kernelPid
      · exact SameMaps.refl _
    · split
      · split
        · exact c.tables.symbolTable_sameMaps sample.pid
        · exact SameMaps.refl _
      · exact SameMaps.refl _
  · generalize (if !c.addedUserFrames && !c.isKernel && ip != sample.ip then c.reportIp H sample sample.ip
      else (true, c)) = first at hfirst ⊢
    obtain ⟨goOn, c'⟩ := first
    have hsecond := reportIp_sameMaps H sample c' ip
    dsimp only
    generalize c'.reportIp H sample ip = second at hsecond ⊢
    obtain ⟨goOn', c''⟩ := second
    cases goOn with
    | false => exact hfirst
    | true =>
      by_cases hbranch : (!sample.branchStack.isEmpty && !c'.isKernel) = true
      · simp only [hbranch, Bool.not_true, Bool.false_eq_true, if_false, if_true]
        exact hfirst
      · have h := hfirst.trans hsecond
        cases goOn' with
        | false => simpa [hbranch] using h
        | true =>
          simp only [hbranch, Bool.not_true, Bool.false_eq_true, if_false]
          split <;> exact h

theorem loop_sameMaps (sample : PerfRecordSample) : ∀ (ips : List UInt64) (c : Callchain),
    c.tables.SameMaps (c.loop H sample ips).2.tables
  | [], c => SameMaps.refl _
  | ip :: ips, c => by
    have h := step_sameMaps H sample c ip
    unfold Callchain.loop
    split
    · rename_i c' heq
      rw [heq] at h
      exact h.trans (loop_sameMaps sample ips c')
    · rename_i c' heq
      rw [heq] at h
      exact h
    · rename_i c' heq
      rw [heq] at h
      exact h

theorem reportAll_sameMaps (sample : PerfRecordSample) : ∀ (ips : List UInt64) (c : Callchain),
    c.tables.SameMaps (c.reportAll H sample ips).tables
  | [], c => SameMaps.refl _
  | ip :: ips, c => by
    have h := reportIp_sameMaps H sample c ip
    unfold Callchain.reportAll
    split
    · rename_i c' heq
      rw [heq] at h
      exact h.trans (reportAll_sameMaps sample ips c')
    · rename_i c' heq
      rw [heq] at h
      exact h

theorem resolveCallchain_sameMaps (sample : PerfRecordSample) (s : SymbolTables) (info : UnwindInfo) :
    s.SameMaps (resolveCallchain H sample s info).1 := by
  have h := loop_sameMaps H sample sample.callchain
    { tables := s.symbolTable sample.pid, info := info, pid := sample.pid }
  unfold resolveCallchain
  dsimp only
  generalize Callchain.loop H sample { tables := s.symbolTable sample.pid, info := info, pid := sample.pid }
    sample.callchain = r at h ⊢
  obtain ⟨goOn, c⟩ := r
  refine (s.symbolTable_sameMaps sample.pid).trans (h.trans ?_)
  dsimp only
  split
  · exact reportAll_sameMaps H sample _ c
  · exact SameMaps.refl _

theorem frameCallback_sameMaps (sample : PerfRecordSample) (s : SymbolTables) (info : UnwindInfo) (state : FrameState) :
    s.SameMaps (frameCallback H sample s info state).2.1 := by
  unfold frameCallback
  dsimp only
  split
  · exact SameMaps.refl s
  · have hmodule := (s.symbolTable_sameMaps sample.pid).trans ((s.symbolTable sample.pid).module_sameMaps H sample.pid
      (state.pc.getD 0) (((s.symbolTable sample.pid).table sample.pid).elfs.findElf (state.pc.getD 0)))
    generalize (s.symbolTable sample.pid).set sample.pid _ = s' at hmodule ⊢
    have h := hmodule.trans
      (s'.lookupFrame_sameMaps H sample.pid (state.pc.getD 0 - (if state.isActivation then 0 else 1)) false)
    generalize s'.lookupFrame H sample.pid (state.pc.getD 0 - (if state.isActivation then 0 else 1)) false = r at h ⊢
    obtain ⟨entry, s''⟩ := r
    dsimp only at h ⊢
    split
    · exact h
    · exact h

theorem findAllDebugInfo_sameMaps (s : SymbolTables) : s.SameMaps (s.findAllDebugInfo H) := SameMaps.refl s

theorem threadFrames_sameMaps (sample : PerfRecordSample) : ∀ (states : List FrameState) (s : SymbolTables)
    (info : UnwindInfo), s.SameMaps (threadFrames H sample s info states).1
  | [], s, _ => s.findAllDebugInfo_sameMaps H
  | state :: states, s, info => by
    have h := (s.findAllDebugInfo_sameMaps H).trans
      (frameCallback_sameMaps H sample (s.findAllDebugInfo H) info state)
    unfold threadFrames
    split
    · rename_i s' info' heq
      rw [heq] at h
      exact h.trans (threadFrames_sameMaps sample states s' info')
    · rename_i s' info' heq
      rw [heq] at h
      exact h

theorem unwindStack_sameMaps (sample : PerfRecordSample) (s : SymbolTables) (info : UnwindInfo) :
    s.SameMaps (unwindStack H sample s info).1 := by
  have hattach := (s.symbolTable_sameMaps sample.pid).trans
    ((s.symbolTable sample.pid).attachDwfl_sameMaps H sample.pid sample)
  unfold unwindStack
  dsimp only
  generalize (s.symbolTable sample.pid).set sample.pid _ = s' at hattach ⊢
  split
  · exact hattach
  · have hframes := hattach.trans (threadFrames_sameMaps H sample (H.threadFrames s' sample info) s' info)
    split
    · exact hframes.trans (threadFrames_sameMaps H sample _ _ _)
    · exact hframes

theorem clearCache_sameMaps (dirty : Bool) (s : SymbolTables) (pid : Int32) :
    s.SameMaps (if dirty then s.set pid (s.table pid).clearCache else s) := by
  split
  · exact sameMaps_set rfl
  · exact SameMaps.refl s

theorem attempt_sameMaps (sample : PerfRecordSample) (s : SymbolTables) :
    s.SameMaps (attempt H sample s).2.1 := by
  have hperf : s.SameMaps (s.set sample.pid ((s.table sample.pid).updatePerfMap H)) := sameMaps_set rfl
  unfold attempt
  dsimp only
  generalize s.set sample.pid ((s.table sample.pid).updatePerfMap H) = s' at hperf ⊢
  have hchain : s'.SameMaps (if !sample.callchain.isEmpty || !sample.branchStack.isEmpty then
      resolveCallchain H sample s' {} else (s', {})).1 := by
    split
    · exact resolveCallchain_sameMaps H sample s' {}
    · exact SameMaps.refl s'
  generalize (if !sample.callchain.isEmpty || !sample.branchStack.isEmpty then
      resolveCallchain H sample s' {} else (s', {})) = chain at hchain ⊢
  obtain ⟨s'', info⟩ := chain
  have h := hperf.trans hchain
  dsimp only
  generalize (!(s''.table sample.pid).cacheIsDirty && !(s''.table kernelPid).cacheIsDirty) = unwinds
  split
  · exact h
  · have hunwind : s''.SameMaps (if unwinds then unwindStack H sample s'' info else (s'', info)).1 := by
      split
      · exact unwindStack_sameMaps H sample s'' info
      · exact SameMaps.refl s''
    exact ((h.trans hunwind).trans (clearCache_sameMaps _ _ sample.pid)).trans (clearCache_sameMaps _ _ kernelPid)

/-- **The analysis of a sample changes no map.** -/
theorem analyze_sameMaps (s : SymbolTables) (sample : PerfRecordSample) : s.SameMaps (s.analyze H sample).1 := by
  have hstart := (s.symbolTable_sameMaps kernelPid).trans (symbolTable_sameMaps _ sample.pid)
  have hfirst := hstart.trans (attempt_sameMaps H sample ((s.symbolTable kernelPid).symbolTable sample.pid))
  unfold analyze
  dsimp only
  generalize attempt H sample ((s.symbolTable kernelPid).symbolTable sample.pid) = first at hfirst ⊢
  obtain ⟨again, s', info⟩ := first
  have hsecond : s'.SameMaps (if again then (attempt H sample s').2 else (s', info)).1 := by
    split
    · exact attempt_sameMaps H sample s'
    · exact SameMaps.refl s'
  dsimp only
  generalize (if again then (attempt H sample s').2 else (s', info)) = second at hsecond ⊢
  obtain ⟨s'', info'⟩ := second
  have h := hfirst.trans hsecond
  dsimp only at h ⊢
  split
  · exact h.trans (s''.lookupFrame_sameMaps H _ sample.ip _)
  · exact h

/-! ## Mmaps, forks and exits -/

theorem registerElf_map (s : SymbolTables) (mmap : PerfRecordMmap) (buildId : QByteArray) (pid : Int32) :
    (s.registerElf H mmap buildId).map pid =
      if pid = mmap.pid then ((s.map pid).registerElf (mappingOf H mmap buildId)).1 else s.map pid := by
  unfold registerElf
  dsimp only
  rw [map_set, table_symbolTable, PerfSymbolTable.registerElf_elfs, PerfElfMap.registerElf_plain,
    s.symbolTable_sameMaps mmap.pid pid]
  by_cases hpid : pid = mmap.pid
  · rw [if_pos hpid, if_pos hpid, hpid]
    rfl
  · rw [if_neg hpid, if_neg hpid]

theorem initAfterFork_map (s : SymbolTables) (childPid parentPid pid : Int32) :
    (s.initAfterFork childPid parentPid).map pid = if pid = childPid then s.map parentPid else s.map pid := by
  unfold initAfterFork
  dsimp only
  rw [map_set, table_symbolTable, table_symbolTable, table_symbolTable, table_symbolTable,
    symbolTable_sameMaps _ parentPid pid, s.symbolTable_sameMaps childPid pid]
  rfl

theorem dropSymbolTable_map (s : SymbolTables) (pid pid' : Int32) :
    (s.dropSymbolTable pid).map pid' = if pid' = pid then {} else s.map pid' := by
  unfold dropSymbolTable map table
  rw [QHash.find_remove]
  by_cases hpid : pid' = pid
  · rw [if_pos hpid, if_pos hpid]
    rfl
  · rw [if_neg hpid, if_neg hpid]

end SymbolTables

end PerfParser
