import PerfParser.SymbolDefinitions
import PerfParser.SymbolMaps
/-!
# SymbolCaches — cached locations have been sent

The address caches are filled by lookups only, each with the location it has just sent, and a sent location stays sent.
So whatever an analysis collects, from the caches or from new lookups, the receiver knows (`analyze_leads`).
-/
namespace PerfParser

open Definitions (Sends)

/-! ## One table -/

namespace PerfSymbolTable

variable {H : Host}

/-- What is found in the one cache is found in the other. -/
def ForgetsOnly (t t' : PerfSymbolTable) : Prop := ∀ ip entry, t'.invalidAddressCache.find ip = some entry →
  t.invalidAddressCache.find ip = some entry

theorem forgetsOnly_of_eq {t t' : PerfSymbolTable} (h : t'.invalidAddressCache = t.invalidAddressCache) :
    t.ForgetsOnly t' := fun _ _ hentry => h ▸ hentry

/-- What a lookup goes on with when its module is found is as it was. -/
theorem module_frame (t : PerfSymbolTable) (addr : UInt64) (elf : ElfInfo) :
    (t.module H addr elf).2.pid = t.pid ∧ (t.module H addr elf).2.perfMap = t.perfMap ∧
      (t.module H addr elf).2.invalidAddressCache = t.invalidAddressCache := by
  have hreport : ∀ info : ElfInfo, (t.reportElf H info).2.pid = t.pid ∧ (t.reportElf H info).2.perfMap = t.perfMap ∧
      (t.reportElf H info).2.invalidAddressCache = t.invalidAddressCache := by
    intro info
    unfold reportElf
    split
    · exact ⟨rfl, rfl, rfl⟩
    · split <;> exact ⟨rfl, rfl, rfl⟩
  unfold module
  dsimp only
  split
  · split
    · exact ⟨rfl, rfl, rfl⟩
    · exact hreport _
  · exact hreport _

theorem attachDwfl_frame (t : PerfSymbolTable) (sample : PerfRecordSample) :
    (t.attachDwfl H sample).2.invalidAddressCache = t.invalidAddressCache := by
  unfold attachDwfl
  split
  · rfl
  · split
    · rfl
    · split <;> rfl

theorem clearCache_forgetsOnly (t : PerfSymbolTable) : t.ForgetsOnly t.clearCache := fun _ _ hentry => by cases hentry

theorem registerElf_frame (t : PerfSymbolTable) (mmap : PerfRecordMmap) (buildId : QByteArray) :
    (t.registerElf H mmap buildId).pid = t.pid ∧ t.ForgetsOnly (t.registerElf H mmap buildId) := by
  have hfold := (foldl_aboutToInvalidate H (t.elfs.registerElf (mappingOf H mmap buildId)).2
    { t with elfs := (t.elfs.registerElf (mappingOf H mmap buildId)).1 }).2
  unfold registerElf
  dsimp only
  split
  · exact ⟨hfold.1, clearCache_forgetsOnly t⟩
  · exact ⟨hfold.1, forgetsOnly_of_eq hfold.2⟩

end PerfSymbolTable

open PerfSymbolTable (ForgetsOnly forgetsOnly_of_eq)

namespace SymbolTables

variable {H : Host} {s s' : SymbolTables} {frames : List Int}

theorem table_dropSymbolTable (s : SymbolTables) (pid pid' : Int32) :
    (s.dropSymbolTable pid).table pid' = if pid' = pid then { pid := pid' } else s.table pid' := by
  unfold SymbolTables.table SymbolTables.dropSymbolTable
  rw [QHash.find_remove]
  by_cases h : pid' = pid <;> simp [h]

theorem symbolTable_resolver (s : SymbolTables) (pid : Int32) : (s.symbolTable pid).resolver = s.resolver := by
  unfold SymbolTables.symbolTable
  split <;> rfl

/-- The table of a process that is set, and those of the others. -/
theorem set_forgetsOnly {pid : Int32} {t : PerfSymbolTable} (ht : (s.table pid).ForgetsOnly t) (pid' : Int32) :
    (s.table pid').ForgetsOnly ((s.set pid t).table pid') := by
  rw [table_set]
  by_cases hpid : pid' = pid
  · rw [if_pos hpid, hpid]
    exact ht
  · rw [if_neg hpid]
    exact forgetsOnly_of_eq rfl

theorem registerElf_forgetsOnly (s : SymbolTables) (mmap : PerfRecordMmap) (buildId : QByteArray) (pid : Int32) :
    (s.table pid).ForgetsOnly ((s.registerElf H mmap buildId).table pid) := by
  rw [← table_symbolTable s mmap.pid pid]
  exact set_forgetsOnly (PerfSymbolTable.registerElf_frame _ mmap buildId).2 pid

theorem initAfterFork_forgetsOnly (s : SymbolTables) (childPid parentPid pid : Int32) :
    (s.table pid).ForgetsOnly ((s.initAfterFork childPid parentPid).table pid) := by
  have hfork : (((s.symbolTable childPid).symbolTable parentPid).table childPid).ForgetsOnly
      ((((s.symbolTable childPid).symbolTable parentPid).table childPid).initAfterFork
        (((s.symbolTable childPid).symbolTable parentPid).table parentPid)) := forgetsOnly_of_eq rfl
  rw [← table_symbolTable s childPid pid, ← table_symbolTable (s.symbolTable childPid) parentPid pid]
  exact set_forgetsOnly hfork pid

theorem dropSymbolTable_forgetsOnly (s : SymbolTables) (pid pid' : Int32) :
    (s.table pid').ForgetsOnly ((s.dropSymbolTable pid).table pid') := by
  rw [table_dropSymbolTable]
  split
  · exact fun ip entry hentry => by cases hentry
  · exact forgetsOnly_of_eq rfl

theorem registerElf_resolver (s : SymbolTables) (mmap : PerfRecordMmap) (buildId : QByteArray) :
    (s.registerElf H mmap buildId).resolver = s.resolver := s.symbolTable_resolver mmap.pid

theorem initAfterFork_resolver (s : SymbolTables) (childPid parentPid : Int32) :
    (s.initAfterFork childPid parentPid).resolver = s.resolver :=
  (symbolTable_resolver _ parentPid).trans (symbolTable_resolver s childPid)

/-! ## All tables -/

/-- The cached locations and these frames have been sent. -/
structure Known (s : SymbolTables) (frames : List Int) : Prop where
  entries : ∀ path relAddr entry, s.resolver.addressCache.entryAt path relAddr = some entry →
    s.resolver.KnowsLocation entry.locationId
  invalid : ∀ pid ip entry, (s.table pid).invalidAddressCache.find ip = some entry →
    s.resolver.KnowsLocation entry.locationId
  frames : ∀ id ∈ frames, s.resolver.KnowsLocation id

/-- From some tables and frames to others: what is sent mentions what is known, and what is kept is known. -/
structure Leads (s : SymbolTables) (frames : List Int) (s' : SymbolTables) (frames' : List Int) : Prop where
  sends : s.resolver.toDefinitions.Sends s'.resolver.toDefinitions
  known : s.Known frames → s'.Known frames'

theorem Leads.refl (s : SymbolTables) (frames : List Int) : s.Leads frames s frames := ⟨.refl, id⟩

theorem Leads.trans {s'' : SymbolTables} {frames' frames'' : List Int} (h : s.Leads frames s' frames')
    (h' : s'.Leads frames' s'' frames'') : s.Leads frames s'' frames'' :=
  ⟨h.sends.trans h'.sends, fun hk => h'.known (h.known hk)⟩

theorem Leads.of_subset {frames' frames'' : List Int} (h : s.Leads frames s' frames') (hsub : frames'' ⊆ frames') :
    s.Leads frames s' frames'' :=
  ⟨h.sends, fun hk => ⟨(h.known hk).entries, (h.known hk).invalid, fun id hid => (h.known hk).frames id (hsub hid)⟩⟩

/-- Frames that are put aside while others are looked for. -/
theorem Leads.keep {s'' : SymbolTables} {frames' part frames'' : List Int} (h : s.Leads frames s' frames')
    (hpart : part ⊆ frames') (h' : s'.Leads part s'' frames'') : s.Leads frames s'' frames' := by
  refine ⟨h.sends.trans h'.sends, fun hk => ?_⟩
  have hk' := h.known hk
  have hk'' := h'.known ⟨hk'.entries, hk'.invalid, fun id hid => hk'.frames id (hpart hid)⟩
  exact ⟨hk''.entries, hk''.invalid, fun id hid => h'.sends.knowsLocation (hk'.frames id hid)⟩

/-- Definitions that are sent, with the caches as they are. -/
theorem leads_of_sends {d : Definitions} (h : s.resolver.toDefinitions.Sends d) (frames : List Int) :
    s.Leads frames { s with resolver := { s.resolver with toDefinitions := d } } frames :=
  ⟨h, fun hk => ⟨fun path relAddr entry hentry => h.knowsLocation (hk.entries path relAddr entry hentry),
    fun pid ip entry hentry => h.knowsLocation (hk.invalid pid ip entry hentry),
    fun id hid => h.knowsLocation (hk.frames id hid)⟩⟩

theorem leads_of_forgetsOnly (hresolver : s'.resolver = s.resolver)
    (htables : ∀ pid, (s.table pid).ForgetsOnly (s'.table pid)) (frames : List Int) : s.Leads frames s' frames := by
  refine ⟨by rw [hresolver]; exact .refl, fun hk => ⟨?_, fun pid ip entry hentry => ?_, ?_⟩⟩
  · rw [hresolver]
    exact hk.entries
  · rw [hresolver]
    exact hk.invalid pid ip entry (htables pid ip entry hentry)
  · rw [hresolver]
    exact hk.frames

theorem leads_set {pid : Int32} {t : PerfSymbolTable} (ht : (s.table pid).ForgetsOnly t) (frames : List Int) :
    s.Leads frames (s.set pid t) frames :=
  leads_of_forgetsOnly (show (s.set pid t).resolver = s.resolver from rfl) (set_forgetsOnly ht) frames

theorem leads_symbolTable (s : SymbolTables) (pid : Int32) (frames : List Int) :
    s.Leads frames (s.symbolTable pid) frames :=
  leads_of_forgetsOnly (s.symbolTable_resolver pid) (fun pid' => by
    rw [table_symbolTable]
    exact forgetsOnly_of_eq rfl) frames

theorem leads_resolveString (s : SymbolTables) (string : QByteArray) (frames : List Int) :
    s.Leads frames (s.resolveString string).1 frames := leads_of_sends (.string .refl string) frames

/-! ## Changes of the mappings -/

theorem leads_registerElf (H : Host) (s : SymbolTables) (mmap : PerfRecordMmap) (buildId : QByteArray)
    (frames : List Int) :
    s.Leads frames (s.registerElf H mmap buildId) frames :=
  leads_of_forgetsOnly (s.registerElf_resolver mmap buildId) (s.registerElf_forgetsOnly mmap buildId) frames

theorem leads_initAfterFork (s : SymbolTables) (childPid parentPid : Int32) (frames : List Int) :
    s.Leads frames (s.initAfterFork childPid parentPid) frames :=
  leads_of_forgetsOnly (s.initAfterFork_resolver childPid parentPid) (s.initAfterFork_forgetsOnly childPid parentPid)
    frames

theorem leads_dropSymbolTable (s : SymbolTables) (pid : Int32) (frames : List Int) :
    s.Leads frames (s.dropSymbolTable pid) frames :=
  have hresolver : (s.dropSymbolTable pid).resolver = s.resolver := rfl
  leads_of_forgetsOnly hresolver (s.dropSymbolTable_forgetsOnly pid) frames

/-! ## Lookups -/

theorem isValid_iff_found {cached : Option AddressCacheEntry} (h : (cached.getD {}).isValid = true) :
    cached = some (cached.getD {}) := by
  cases cached with
  | none => cases h
  | some entry => rfl

theorem Known.find (h : s.Known frames) {pid : Int32} {ip : UInt64} {elf : ElfInfo}
    (hvalid : (s.resolver.addressCache.find elf ip (s.table pid).invalidAddressCache).isValid = true) :
    s.resolver.KnowsLocation
      (s.resolver.addressCache.find elf ip (s.table pid).invalidAddressCache).locationId := by
  unfold PerfAddressCache.find at hvalid ⊢
  split at hvalid
  · rename_i helf
    rw [if_pos helf]
    exact h.entries _ _ _ (isValid_iff_found hvalid)
  · rename_i helf
    rw [if_neg helf]
    exact h.invalid pid ip _ (isValid_iff_found hvalid)

/-- **A lookup returns a location that has been sent**, and caches no other. -/
theorem leads_lookupFrame (H : Host) (s : SymbolTables) (pid : Int32) (ip : UInt64) (isKernel : Bool)
    (frames : List Int) :
    s.Leads frames (s.lookupFrame H pid ip isKernel).2
      (frames ++ [(s.lookupFrame H pid ip isKernel).1.locationId]) := by
  cases hcached : (s.resolver.addressCache.find ((s.table pid).elfs.findElf ip) ip
      (s.table pid).invalidAddressCache).isValid with
  | true =>
    unfold lookupFrame
    rw [PerfSymbolTable.lookupFrame_hit hcached]
    dsimp only
    have hset : s.Leads frames (s.set pid (s.table pid)) frames := leads_set (forgetsOnly_of_eq rfl) frames
    refine ⟨hset.sends, fun hk => ⟨(hset.known hk).entries, (hset.known hk).invalid, fun id hid => ?_⟩⟩
    rcases List.mem_append.1 hid with hid | hid
    · exact hk.frames id hid
    · rw [List.mem_singleton.1 hid]
      exact hk.find hcached
  | false =>
    have hmiss : PerfSymbolTable.Missed H.sources (PerfSymbolTable.module H) s.resolver (s.table pid) ip
        ((s.table pid).lookupFrame H.sources (PerfSymbolTable.module H) s.resolver ip isKernel) :=
      PerfSymbolTable.lookupFrame_miss hcached
    unfold lookupFrame
    generalize (s.table pid).lookupFrame H.sources (PerfSymbolTable.module H) s.resolver ip isKernel = result at hmiss ⊢
    obtain ⟨entry, resolver, t⟩ := result
    obtain ⟨hsends, ⟨l, hl, -⟩, ⟨c, hc, hstore⟩, -⟩ := hmiss
    have hentry : resolver.KnowsLocation entry.locationId := .inr ⟨l, hl⟩
    have hcache := congrArg Prod.fst hstore
    have hinvalid := congrArg Prod.snd hstore
    rw [((s.table pid).module_frame ip _).2.2] at hcache hinvalid
    dsimp only at hcache hinvalid hsends ⊢
    refine ⟨hsends, fun hk => ⟨fun path relAddr e he => ?_, fun pid' ip' e he => ?_, fun id hid => ?_⟩⟩
    · have he : resolver.addressCache.entryAt path relAddr = some e := he
      rw [← hcache, PerfAddressCache.entryAt_store] at he
      split at he
      · rw [← Option.some.inj he]
        exact hentry
      · exact hsends.knowsLocation (hk.entries path relAddr e (by
          rwa [PerfAddressCache.entryAt, hc, ← PerfAddressCache.entryAt] at he))
    · rw [table_set] at he
      by_cases hpid : pid' = pid
      · rw [if_pos hpid, ← hinvalid, PerfAddressCache.find_store] at he
        split at he
        · rw [← Option.some.inj he]
          exact hentry
        · exact hsends.knowsLocation (hk.invalid pid ip' e he)
      · rw [if_neg hpid] at he
        exact hsends.knowsLocation (hk.invalid pid' ip' e he)
    · rcases List.mem_append.1 hid with hid | hid
      · exact hsends.knowsLocation (hk.frames id hid)
      · rw [List.mem_singleton.1 hid]
        exact hentry

/-! ## Samples -/

theorem leads_findAllDebugInfo (H : Host) (s : SymbolTables) (frames : List Int) :
    s.Leads frames (s.findAllDebugInfo H) frames := leads_of_sends (Definitions.findAllDebugInfo_sends _ _) frames

theorem leads_attachDwfl (H : Host) (s : SymbolTables) (pid : Int32) (sample : PerfRecordSample) (frames : List Int) :
    s.Leads frames (s.set pid ((s.table pid).attachDwfl H sample).2) frames :=
  leads_set (forgetsOnly_of_eq (PerfSymbolTable.attachDwfl_frame _ sample)) frames

/-- A callchain in progress. -/
abbrev Callchain.Leads (c c' : Callchain) : Prop := c.tables.Leads c.info.frames c'.tables c'.info.frames

variable (H : Host) (sample : PerfRecordSample)

theorem reportIp_leads (c : Callchain) (ip : UInt64) : c.Leads (c.reportIp H sample ip).2 :=
  (leads_attachDwfl H c.tables c.pid sample _).trans (leads_lookupFrame H _ c.pid ip c.isKernel _)

theorem step_leads (c : Callchain) (ip : UInt64) : c.Leads (c.step H sample ip).2 := by
  have hfirst : c.Leads (if !c.addedUserFrames && !c.isKernel && ip != sample.ip then
      c.reportIp H sample sample.ip else (true, c)).2 := by
    split
    · exact reportIp_leads H sample c sample.ip
    · exact Leads.refl _ _
  unfold Callchain.step
  split
  · split
    · split
      · exact c.tables.leads_symbolTable kernelPid _
      · exact Leads.refl _ _
    · split
      · split
        · exact c.tables.leads_symbolTable sample.pid _
        · exact Leads.refl _ _
      · exact Leads.refl _ _
  · generalize (if !c.addedUserFrames && !c.isKernel && ip != sample.ip then c.reportIp H sample sample.ip
      else (true, c)) = first at hfirst ⊢
    obtain ⟨goOn, c'⟩ := first
    have hsecond := hfirst.trans (reportIp_leads H sample c' ip)
    dsimp only
    cases goOn with
    | false => exact hfirst
    | true =>
      by_cases hbranch : (!sample.branchStack.isEmpty && !c'.isKernel) = true
      · simp only [hbranch, Bool.not_true, Bool.false_eq_true, if_false, if_true]
        exact hfirst
      · generalize c'.reportIp H sample ip = second at hsecond ⊢
        obtain ⟨goOn', c''⟩ := second
        cases goOn' with
        | false => simpa [hbranch] using hsecond
        | true =>
          simp only [hbranch, Bool.not_true, Bool.false_eq_true, if_false]
          split <;> exact hsecond

theorem loop_leads : ∀ (ips : List UInt64) (c : Callchain), c.Leads (c.loop H sample ips).2
  | [], c => Leads.refl _ _
  | ip :: ips, c => by
    have h := step_leads H sample c ip
    unfold Callchain.loop
    split
    · rename_i c' heq
      rw [heq] at h
      exact h.trans (loop_leads ips c')
    · rename_i c' heq
      rw [heq] at h
      exact h
    · rename_i c' heq
      rw [heq] at h
      exact h

theorem reportAll_leads : ∀ (ips : List UInt64) (c : Callchain), c.Leads (c.reportAll H sample ips)
  | [], c => Leads.refl _ _
  | ip :: ips, c => by
    have h := reportIp_leads H sample c ip
    unfold Callchain.reportAll
    split
    · rename_i c' heq
      rw [heq] at h
      exact h.trans (reportAll_leads ips c')
    · rename_i c' heq
      rw [heq] at h
      exact h

theorem resolveCallchain_leads (s : SymbolTables) (info : UnwindInfo) :
    s.Leads info.frames (resolveCallchain H sample s info).1 (resolveCallchain H sample s info).2.frames := by
  have h := loop_leads H sample sample.callchain { tables := s.symbolTable sample.pid, info := info, pid := sample.pid }
  unfold resolveCallchain
  dsimp only
  generalize Callchain.loop H sample { tables := s.symbolTable sample.pid, info := info, pid := sample.pid }
    sample.callchain = r at h ⊢
  obtain ⟨goOn, c⟩ := r
  refine (s.leads_symbolTable sample.pid info.frames).trans (h.trans ?_)
  dsimp only
  split
  · exact reportAll_leads H sample _ c
  · exact Leads.refl _ _

theorem frameCallback_leads (s : SymbolTables) (info : UnwindInfo) (state : FrameState) :
    s.Leads info.frames (frameCallback H sample s info state).2.1 (frameCallback H sample s info state).2.2.frames := by
  unfold frameCallback
  dsimp only
  split
  · exact Leads.refl s _
  · have hmodule : s.Leads info.frames ((s.symbolTable sample.pid).set sample.pid
        (((s.symbolTable sample.pid).table sample.pid).module H (state.pc.getD 0)
          (((s.symbolTable sample.pid).table sample.pid).elfs.findElf (state.pc.getD 0))).2) info.frames :=
      (s.leads_symbolTable sample.pid info.frames).trans
        (leads_set (forgetsOnly_of_eq (PerfSymbolTable.module_frame _ _ _).2.2) info.frames)
    generalize (s.symbolTable sample.pid).set sample.pid _ = s' at hmodule ⊢
    have h := hmodule.trans (leads_lookupFrame H s' sample.pid
      (state.pc.getD 0 - (if state.isActivation then 0 else 1)) false info.frames)
    generalize s'.lookupFrame H sample.pid (state.pc.getD 0 - (if state.isActivation then 0 else 1)) false = r at h ⊢
    obtain ⟨entry, s''⟩ := r
    dsimp only at h ⊢
    split
    · exact h.of_subset (List.subset_append_left _ _)
    · split <;> exact h

theorem threadFrames_leads : ∀ (states : List FrameState) (s : SymbolTables) (info : UnwindInfo),
    s.Leads info.frames (threadFrames H sample s info states).1 (threadFrames H sample s info states).2.frames
  | [], s, info => leads_findAllDebugInfo H s info.frames
  | state :: states, s, info => by
    have h := (leads_findAllDebugInfo H s info.frames).trans
      (frameCallback_leads H sample (s.findAllDebugInfo H) info state)
    unfold threadFrames
    split
    · rename_i s' info' heq
      rw [heq] at h
      exact h.trans (threadFrames_leads states s' info')
    · rename_i s' info' heq
      rw [heq] at h
      exact h

theorem unwindStack_leads (s : SymbolTables) (info : UnwindInfo) :
    s.Leads info.frames (unwindStack H sample s info).1 (unwindStack H sample s info).2.frames := by
  have hattach := (s.leads_symbolTable sample.pid info.frames).trans
    (leads_attachDwfl H (s.symbolTable sample.pid) sample.pid sample info.frames)
  unfold unwindStack
  dsimp only
  generalize (s.symbolTable sample.pid).set sample.pid _ = s' at hattach ⊢
  split
  · exact hattach
  · have hframes := hattach.trans (threadFrames_leads H sample (H.threadFrames s' sample info) s' info)
    generalize threadFrames H sample s' info (H.threadFrames s' sample info) = r at hframes ⊢
    obtain ⟨s'', info'⟩ := r
    dsimp only at hframes ⊢
    split
    · have hretried := threadFrames_leads H sample
        (H.threadFrames s'' sample { info' with frames := info'.frames.take 1 }) s''
        { info' with frames := info'.frames.take 1 }
      generalize threadFrames H sample s'' { info' with frames := info'.frames.take 1 } _ = r at hretried ⊢
      obtain ⟨tables, retried⟩ := r
      dsimp only at hretried ⊢
      split
      · exact hframes.keep (List.take_subset 1 info'.frames) hretried
      · exact (hframes.of_subset (List.take_subset 1 info'.frames)).trans hretried
    · exact hframes

theorem leads_updatePerfMap (s : SymbolTables) (pid : Int32) (frames : List Int) :
    s.Leads frames (s.set pid ((s.table pid).updatePerfMap H)) frames :=
  have hmap : (s.table pid).ForgetsOnly ((s.table pid).updatePerfMap H) := forgetsOnly_of_eq rfl
  leads_set hmap frames

theorem leads_clearCache (s : SymbolTables) (pid : Int32) (frames : List Int) :
    s.Leads frames (s.set pid (s.table pid).clearCache) frames :=
  leads_set (PerfSymbolTable.clearCache_forgetsOnly _) frames

theorem attempt_leads (s : SymbolTables) :
    s.Leads [] (attempt H sample s).2.1 (attempt H sample s).2.2.frames := by
  have hstart := leads_updatePerfMap H s sample.pid []
  unfold attempt
  dsimp only
  generalize s.set sample.pid ((s.table sample.pid).updatePerfMap H) = s₁ at hstart ⊢
  have hcallchain : s.Leads []
      (if !sample.callchain.isEmpty || !sample.branchStack.isEmpty then resolveCallchain H sample s₁ {} else (s₁, {})).1
      (if !sample.callchain.isEmpty || !sample.branchStack.isEmpty then resolveCallchain H sample s₁ {}
        else (s₁, {})).2.frames := by
    split
    · exact hstart.trans (resolveCallchain_leads H sample s₁ {})
    · exact hstart
  generalize (if !sample.callchain.isEmpty || !sample.branchStack.isEmpty then resolveCallchain H sample s₁ {}
    else (s₁, {})) = r at hcallchain ⊢
  obtain ⟨s₂, info⟩ := r
  dsimp only at hcallchain ⊢
  generalize (!(s₂.table sample.pid).cacheIsDirty && !(s₂.table kernelPid).cacheIsDirty) = unwinds
  split
  · exact hcallchain
  · have hunwind : s.Leads [] (if unwinds = true then unwindStack H sample s₂ info else (s₂, info)).1
        (if unwinds = true then unwindStack H sample s₂ info else (s₂, info)).2.frames := by
      split
      · exact hcallchain.trans (unwindStack_leads H sample s₂ info)
      · exact hcallchain
    generalize (if unwinds = true then unwindStack H sample s₂ info else (s₂, info)) = r at hunwind ⊢
    obtain ⟨s₃, info'⟩ := r
    dsimp only at hunwind ⊢
    generalize (if unwinds = true then (s₃.table sample.pid).cacheIsDirty
      else (s₂.table sample.pid).cacheIsDirty) = userDirty
    have huser : s.Leads [] (if userDirty = true then s₃.set sample.pid (s₃.table sample.pid).clearCache else s₃)
        info'.frames := by
      split
      · exact hunwind.trans (leads_clearCache s₃ sample.pid _)
      · exact hunwind
    generalize (if userDirty = true then s₃.set sample.pid (s₃.table sample.pid).clearCache else s₃) = s₄ at huser ⊢
    split
    · exact huser.trans (leads_clearCache s₄ kernelPid _)
    · exact huser

/-- **The frames of a sample have been sent**, and so has what its analysis leaves in the caches. -/
theorem analyze_leads (s : SymbolTables) : s.Leads [] (s.analyze H sample).1 (s.analyze H sample).2.frames := by
  have hstart := (s.leads_symbolTable kernelPid []).trans (leads_symbolTable _ sample.pid [])
  unfold analyze
  dsimp only
  generalize (s.symbolTable kernelPid).symbolTable sample.pid = s₁ at hstart ⊢
  have hfirst := hstart.trans (attempt_leads H sample s₁)
  generalize attempt H sample s₁ = r at hfirst ⊢
  obtain ⟨again, s₂, info⟩ := r
  dsimp only at hfirst ⊢
  have hsecond : s.Leads [] (if again = true then (attempt H sample s₂).2 else (s₂, info)).1
      (if again = true then (attempt H sample s₂).2 else (s₂, info)).2.frames := by
    split
    · exact (hfirst.of_subset (List.nil_subset _)).trans (attempt_leads H sample s₂)
    · exact hfirst
  generalize (if again = true then (attempt H sample s₂).2 else (s₂, info)) = r at hsecond ⊢
  obtain ⟨s₃, info'⟩ := r
  dsimp only at hsecond ⊢
  split
  · generalize (if s₃.ipIsInKernelSpace sample.ip = true then kernelPid else sample.pid) = pid
    exact (hsecond.of_subset (List.nil_subset _)).trans
      (leads_lookupFrame H s₃ pid sample.ip (s₃.ipIsInKernelSpace sample.ip) [])
  · exact hsecond

end SymbolTables

end PerfParser
