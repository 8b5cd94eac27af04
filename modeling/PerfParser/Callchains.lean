import PerfParser.SymbolMaps
/-!
# Callchains — what is reported of a callchain (`perfunwind.cpp`)

A callchain is a list of instruction pointers with markers for the context of those that follow.  `ipReports` is what it
says, `withLeaf` what `resolveCallchain` makes of it (`loop_reports`).
-/
namespace PerfParser

open SymbolTables (PERF_CONTEXT_HV PERF_CONTEXT_KERNEL PERF_CONTEXT_USER PERF_CONTEXT_MAX)

/-- A lookup that `resolveCallchain` makes: in the table of the kernel, or of the sample's process. -/
structure Report where
  ip : UInt64
  isKernel : Bool
deriving DecidableEq, Repr

namespace Report

def pid (sample : PerfRecordSample) (r : Report) : Int32 := if r.isKernel then kernelPid else sample.pid

/-- The sample's own address, as one in user mode. -/
def leaf (sampleIp : UInt64) : Report := { ip := sampleIp, isKernel := false }

end Report

/-! ## What a callchain says -/

def IsMarker (ip : UInt64) : Prop := ip = PERF_CONTEXT_HV ∨ ip = PERF_CONTEXT_KERNEL ∨ ip = PERF_CONTEXT_USER

instance (ip : UInt64) : Decidable (IsMarker ip) :=
  inferInstanceAs (Decidable (ip = PERF_CONTEXT_HV ∨ ip = PERF_CONTEXT_KERNEL ∨ ip = PERF_CONTEXT_USER))

/-- The instruction pointers in their order, each in the kernel where the last marker says so. -/
def ipReports : Bool → List UInt64 → List Report
  | _, [] => []
  | isKernel, ip :: ips =>
    if ip = PERF_CONTEXT_HV ∨ ip = PERF_CONTEXT_KERNEL then ipReports true ips
    else if ip = PERF_CONTEXT_USER then ipReports false ips
    else { ip := ip, isKernel := isKernel } :: ipReports isKernel ips

/-- The instruction pointers of the kernel before the first one of the process. -/
def kernelReports (rs : List Report) : List Report := rs.takeWhile Report.isKernel

/-- The first instruction pointer of the process, and what follows it. -/
def userReports (rs : List Report) : List Report := rs.dropWhile Report.isKernel

/-- The reports of a callchain, with the leaf before the first instruction pointer of the process where that is another
address and the sample was taken in user mode. -/
def expectedReports (sampleIp : UInt64) (rs : List Report) : List Report :=
  match userReports rs with
  | [] => rs
  | r :: user =>
    if kernelReports rs = [] ∧ r.ip ≠ sampleIp then kernelReports rs ++ .leaf sampleIp :: r :: user else rs

/-- The leaf, where it is not the first instruction pointer of the process. -/
def withLeaf (sampleIp : UInt64) : List Report → List Report
  | [] => []
  | r :: rs =>
    if r.isKernel then r :: withLeaf sampleIp rs
    else if r.ip ≠ sampleIp then .leaf sampleIp :: r :: rs
    else r :: rs

/-- The first instruction pointer of the process is the sample's own, where some of the kernel come before it. -/
def LeafKnown (sampleIp : UInt64) (rs : List Report) : Prop :=
  ∀ r ∈ (userReports rs).head?, kernelReports rs = [] ∨ r.ip = sampleIp

theorem withLeaf_eq (sampleIp : UInt64) : ∀ rs : List Report, withLeaf sampleIp rs =
    match userReports rs with
    | [] => rs
    | r :: user => if r.ip ≠ sampleIp then kernelReports rs ++ .leaf sampleIp :: r :: user else rs
  | [] => rfl
  | r :: rs => by
    have ih := withLeaf_eq sampleIp rs
    have hrs : kernelReports rs ++ userReports rs = rs := List.takeWhile_append_dropWhile
    unfold kernelReports userReports at *
    rw [withLeaf, List.takeWhile_cons, List.dropWhile_cons]
    cases hk : r.isKernel with
    | false => rfl
    | true =>
      simp only [if_true]
      rw [ih]
      cases rs.dropWhile Report.isKernel with
      | nil => rfl
      | cons r' user =>
        dsimp only
        split <;> rfl

/-- **The expected reports are made exactly where the leaf is known.** -/
theorem expectedReports_eq_iff (sampleIp : UInt64) (rs : List Report) :
    (expectedReports sampleIp rs).length = (withLeaf sampleIp rs).length ↔ LeafKnown sampleIp rs := by
  rw [withLeaf_eq]
  unfold expectedReports LeafKnown
  have hrs : kernelReports rs ++ userReports rs = rs := List.takeWhile_append_dropWhile
  cases hu : userReports rs with
  | nil => simp
  | cons r user =>
    rw [hu] at hrs
    have hlen := congrArg List.length hrs
    simp only [List.length_append, List.length_cons] at hlen
    by_cases hip : r.ip = sampleIp
    · simp [hip]
    · by_cases hkernel : kernelReports rs = []
      · simp [hip, hkernel]
      · simp only [hkernel, hip, ne_eq, not_false_eq_true, false_and, if_false, if_true, List.length_append,
          List.length_cons, List.head?_cons, Option.mem_def, Option.some.injEq, forall_eq', or_self, iff_false]
        omega

theorem expectedReports_of_leafKnown {sampleIp : UInt64} {rs : List Report} (h : LeafKnown sampleIp rs) :
    expectedReports sampleIp rs = withLeaf sampleIp rs := by
  rw [withLeaf_eq]
  unfold expectedReports
  unfold LeafKnown at h
  cases hu : userReports rs with
  | nil => rfl
  | cons r user =>
    rw [hu] at h
    rcases h r rfl with hkernel | hip
    · simp [hkernel]
    · simp [hip]

namespace SymbolTables

/-! ## Tables that look up the same -/

/-- Every lookup has the same result in both. -/
structure Alike (s s' : SymbolTables) : Prop where
  resolver : s.resolver = s'.resolver
  table : ∀ pid, s.table pid = s'.table pid

variable {s s' : SymbolTables}

theorem Alike.set (h : s.Alike s') (pid : Int32) (t : PerfSymbolTable) : (s.set pid t).Alike (s'.set pid t) where
  resolver := h.resolver
  table pid' := by rw [table_set, table_set, h.table pid']

theorem Alike.symbolTable (h : s.Alike s') (pid : Int32) : (s.symbolTable pid).Alike s' where
  resolver := by
    rw [← h.resolver]
    unfold SymbolTables.symbolTable
    split <;> rfl
  table pid' := by rw [table_symbolTable, h.table pid']

variable (H : Host) (sample : PerfRecordSample)

theorem Alike.lookupFrame (h : s.Alike s') (pid : Int32) (ip : UInt64) (isKernel : Bool) :
    (s.lookupFrame H pid ip isKernel).1 = (s'.lookupFrame H pid ip isKernel).1 ∧
      (s.lookupFrame H pid ip isKernel).2.Alike (s'.lookupFrame H pid ip isKernel).2 := by
  unfold SymbolTables.lookupFrame
  rw [h.table pid, h.resolver]
  generalize PerfSymbolTable.lookupFrame _ _ _ _ _ _ = r
  obtain ⟨entry, resolver, t⟩ := r
  have hresolver : Alike { s with resolver := resolver } { s' with resolver := resolver } := ⟨rfl, h.table⟩
  exact ⟨rfl, hresolver.set pid t⟩

/-! ## The reports of a callchain -/

/-- `reportIp` for one of the reports. -/
def report (s : SymbolTables × UnwindInfo) (r : Report) : SymbolTables × UnwindInfo :=
  let c := (Callchain.reportIp H sample
    { tables := s.1, info := s.2, pid := r.pid sample, isKernel := r.isKernel } r.ip).2
  (c.tables, c.info)

def reports (s : SymbolTables × UnwindInfo) (rs : List Report) : SymbolTables × UnwindInfo := rs.foldl (report H sample) s

theorem reports_singleton (s : SymbolTables × UnwindInfo) (r : Report) :
    reports H sample s [r] = report H sample s r := by
  rw [reports, List.foldl_cons, List.foldl_nil]

theorem reports_cons (s : SymbolTables × UnwindInfo) (r : Report) (rs : List Report) :
    reports H sample s (r :: rs) = reports H sample (report H sample s r) rs := List.foldl_cons ..

theorem reports_append (s : SymbolTables × UnwindInfo) (rs rs' : List Report) :
    reports H sample s (rs ++ rs') = reports H sample (reports H sample s rs) rs' := List.foldl_append

theorem report_frames_length (s : SymbolTables × UnwindInfo) (r : Report) :
    (report H sample s r).2.frames.length = s.2.frames.length + 1 := by
  unfold report Callchain.reportIp
  exact List.length_append

theorem reports_frames_length : ∀ (rs : List Report) (s : SymbolTables × UnwindInfo),
    (reports H sample s rs).2.frames.length = s.2.frames.length + rs.length
  | [], s => rfl
  | r :: rs, s => by
    have ih := reports_frames_length rs (report H sample s r)
    rw [report_frames_length] at ih
    rw [reports, List.foldl_cons, ← reports, ih, List.length_cons]
    omega

/-- A state of the loop over the callchain, and what was reported up to it. -/
structure Reported (c : Callchain) (t : SymbolTables × UnwindInfo) : Prop where
  tables : c.tables.Alike t.1
  info : c.info = t.2
  pid : c.pid = if c.isKernel then kernelPid else sample.pid

variable {sample} {c : Callchain} {t : SymbolTables × UnwindInfo}

theorem Reported.reportIp (h : Reported sample c t) (ip : UInt64) :
    Reported sample (c.reportIp H sample ip).2 (report H sample t { ip := ip, isKernel := c.isKernel }) := by
  have hpid : c.pid = Report.pid sample { ip := ip, isKernel := c.isKernel } := h.pid
  unfold report Callchain.reportIp
  dsimp only
  rw [← hpid, h.tables.table c.pid, h.info]
  obtain ⟨hentry, htables⟩ := (h.tables.set c.pid ((t.1.table c.pid).attachDwfl H sample).2).lookupFrame
    H c.pid ip c.isKernel
  exact ⟨htables, by rw [hentry], h.pid⟩

variable (sample) in
theorem reportIp_isKernel (c : Callchain) (ip : UInt64) : (c.reportIp H sample ip).2.isKernel = c.isKernel := by
  rw [Callchain.reportIp]

variable (sample) in
theorem reportIp_addedUserFrames (c : Callchain) (ip : UInt64) :
    (c.reportIp H sample ip).2.addedUserFrames = c.addedUserFrames := by
  rw [Callchain.reportIp]

theorem Reported.enterKernel (h : Reported sample c t) : Reported sample (if !c.isKernel then
    { c with tables := c.tables.symbolTable kernelPid, pid := kernelPid, isKernel := true } else c) t := by
  cases hk : c.isKernel with
  | false => exact ⟨h.tables.symbolTable kernelPid, h.info, rfl⟩
  | true => exact h

theorem Reported.enterUser (h : Reported sample c t) : Reported sample (if c.isKernel then
    { c with tables := c.tables.symbolTable sample.pid, pid := sample.pid, isKernel := false } else c) t := by
  cases hk : c.isKernel with
  | false => exact h
  | true => exact ⟨h.tables.symbolTable sample.pid, h.info, rfl⟩

/-- The leaf comes before an instruction pointer. -/
def leafComes (sampleIp : UInt64) (addedUserFrames isKernel : Bool) (ip : UInt64) : Bool :=
  !addedUserFrames && !isKernel && ip != sampleIp

/-- What the loop reports from a state on. -/
def reportsFrom (sampleIp : UInt64) (addedUserFrames isKernel : Bool) (ips : List UInt64) : List Report :=
  if addedUserFrames then ipReports isKernel ips else withLeaf sampleIp (ipReports isKernel ips)

theorem marker_gt {ip : UInt64} (h : IsMarker ip) : ip > PERF_CONTEXT_MAX := by
  rcases h with rfl | rfl | rfl <;> decide

theorem ipReports_ip {ip : UInt64} (hip : ¬ip > PERF_CONTEXT_MAX) (isKernel : Bool) (ips : List UInt64) :
    ipReports isKernel (ip :: ips) = { ip := ip, isKernel := isKernel } :: ipReports isKernel ips := by
  rw [ipReports, if_neg (fun h => hip (marker_gt (h.elim .inl (fun h => .inr (.inl h))))),
    if_neg (fun h => hip (marker_gt (.inr (.inr h))))]

/-- What the loop reports for an instruction pointer. -/
theorem reportsFrom_ip (sampleIp : UInt64) (addedUserFrames isKernel : Bool) {ip : UInt64} (hip : ¬ip > PERF_CONTEXT_MAX)
    (ips : List UInt64) : reportsFrom sampleIp addedUserFrames isKernel (ip :: ips) =
      (if leafComes sampleIp addedUserFrames isKernel ip then [.leaf sampleIp] else []) ++
        { ip := ip, isKernel := isKernel } :: reportsFrom sampleIp (addedUserFrames || !isKernel) isKernel ips := by
  unfold reportsFrom leafComes
  rw [ipReports_ip hip]
  cases addedUserFrames with
  | true => simp
  | false =>
    cases isKernel with
    | true => simp [withLeaf]
    | false => by_cases h : ip = sampleIp <;> simp [withLeaf, h]

variable (sample) in
/-- What the loop does before it comes to an instruction pointer. -/
def reportLeaf (c : Callchain) (ip : UInt64) : Bool × Callchain :=
  if leafComes sample.ip c.addedUserFrames c.isKernel ip then c.reportIp H sample sample.ip else (true, c)

theorem Reported.reportLeaf (h : Reported sample c t) (ip : UInt64) :
    (reportLeaf H sample c ip).2.isKernel = c.isKernel ∧
      (reportLeaf H sample c ip).2.addedUserFrames = c.addedUserFrames ∧
      Reported sample (reportLeaf H sample c ip).2
        (reports H sample t (if leafComes sample.ip c.addedUserFrames c.isKernel ip then [.leaf sample.ip] else [])) := by
  unfold SymbolTables.reportLeaf
  cases hleaf : leafComes sample.ip c.addedUserFrames c.isKernel ip with
  | false =>
    rw [if_neg Bool.false_ne_true, if_neg Bool.false_ne_true]
    exact ⟨rfl, rfl, h⟩
  | true =>
    rw [if_pos rfl, if_pos rfl]
    have hk : c.isKernel = false := by
      simp only [leafComes, Bool.and_eq_true, Bool.not_eq_true'] at hleaf
      exact hleaf.1.2
    have hreport := h.reportIp H sample.ip
    rw [hk] at hreport
    rw [reports_singleton, Report.leaf]
    exact ⟨reportIp_isKernel H sample c sample.ip, reportIp_addedUserFrames H sample c sample.ip, hreport⟩

theorem Reported.addUserFrames (h : Reported sample c t) :
    (if !c.isKernel then { c with addedUserFrames := true } else c).isKernel = c.isKernel ∧
      (if !c.isKernel then { c with addedUserFrames := true } else c).addedUserFrames =
        (c.addedUserFrames || !c.isKernel) ∧
      Reported sample (if !c.isKernel then { c with addedUserFrames := true } else c) t := by
  obtain ⟨tables, info, pid, isKernel, addedUserFrames⟩ := c
  cases isKernel with
  | false => exact ⟨rfl, (Bool.or_true _).symm, ⟨h.tables, h.info, h.pid⟩⟩
  | true => exact ⟨rfl, (Bool.or_false _).symm, h⟩

theorem step_ip (hbranch : sample.branchStack = []) (c : Callchain) {ip : UInt64} (hip : ¬ip > PERF_CONTEXT_MAX) :
    c.step H sample ip =
      if (reportLeaf H sample c ip).1 then
        if ((reportLeaf H sample c ip).2.reportIp H sample ip).1 then
          (some true, if !((reportLeaf H sample c ip).2.reportIp H sample ip).2.isKernel then
            { ((reportLeaf H sample c ip).2.reportIp H sample ip).2 with addedUserFrames := true }
            else ((reportLeaf H sample c ip).2.reportIp H sample ip).2)
        else (some false, ((reportLeaf H sample c ip).2.reportIp H sample ip).2)
      else (some false, (reportLeaf H sample c ip).2) := by
  unfold Callchain.step
  rw [if_neg hip, show (if !c.addedUserFrames && !c.isKernel && ip != sample.ip then c.reportIp H sample sample.ip
    else (true, c)) = reportLeaf H sample c ip from rfl, hbranch]
  generalize reportLeaf H sample c ip = first
  obtain ⟨goOn, c₁⟩ := first
  cases goOn with
  | false => rfl
  | true =>
    dsimp only
    generalize c₁.reportIp H sample ip = second
    obtain ⟨goOn, c₂⟩ := second
    cases goOn <;> rfl

/-- A marker changes the table. -/
theorem step_marker (h : Reported sample c t) {ip : UInt64} (hip : IsMarker ip) :
    ∃ c', c.step H sample ip = (some true, c') ∧ Reported sample c' t ∧ c'.addedUserFrames = c.addedUserFrames ∧
      ∀ ips, ipReports c.isKernel (ip :: ips) = ipReports c'.isKernel ips := by
  have hgt := marker_gt hip
  unfold Callchain.step
  rw [if_pos hgt]
  by_cases hk : ip = PERF_CONTEXT_HV ∨ ip = PERF_CONTEXT_KERNEL
  · rw [if_pos hk]
    refine ⟨_, rfl, h.enterKernel, ?_, fun ips => ?_⟩
    · split <;> rfl
    · rw [ipReports, if_pos hk]
      cases hkernel : c.isKernel with
      | false => rfl
      | true =>
        rw [if_neg (by decide), hkernel]
  · have hu : ip = PERF_CONTEXT_USER := (hip.resolve_left (fun h => hk (.inl h))).resolve_left (fun h => hk (.inr h))
    rw [if_neg hk, if_pos hu]
    refine ⟨_, rfl, h.enterUser, ?_, fun ips => ?_⟩
    · split <;> rfl
    · rw [ipReports, if_neg hk, if_pos hu]
      cases hkernel : c.isKernel with
      | false =>
        rw [if_neg Bool.false_ne_true, hkernel]
      | true => rfl

/-- **The loop over the callchain reports its instruction pointers, and the leaf**, where no lookup makes it stop. -/
theorem loop_reports (hbranch : sample.branchStack = []) : ∀ (ips : List UInt64) {c : Callchain}
    {t : SymbolTables × UnwindInfo}, Reported sample c t → (∀ ip ∈ ips, ip > PERF_CONTEXT_MAX → IsMarker ip) →
    (c.loop H sample ips).1 = true →
    Reported sample (c.loop H sample ips).2 (reports H sample t (reportsFrom sample.ip c.addedUserFrames c.isKernel ips))
  | [], c, t, h, _, _ => by
    have hnil : reportsFrom sample.ip c.addedUserFrames c.isKernel [] = [] := by
      unfold reportsFrom
      split <;> rfl
    rw [hnil]
    exact h
  | ip :: ips, c, t, h, hips, hloop => by
    have hips' : ∀ ip ∈ ips, ip > PERF_CONTEXT_MAX → IsMarker ip :=
      fun ip' hip' => hips ip' (List.mem_cons_of_mem ip hip')
    unfold Callchain.loop at hloop ⊢
    by_cases hip : ip > PERF_CONTEXT_MAX
    · obtain ⟨c', he, h', hadded, hreports⟩ := step_marker H h (hips ip List.mem_cons_self hip)
      rw [he] at hloop ⊢
      have hrest := loop_reports hbranch ips h' hips' hloop
      rw [reportsFrom, hadded, ← hreports, ← reportsFrom] at hrest
      exact hrest
    · obtain ⟨hk₁, ha₁, h₁⟩ := h.reportLeaf H ip
      have h₂ := h₁.reportIp H ip
      have hk₂ := reportIp_isKernel H sample (reportLeaf H sample c ip).2 ip
      have ha₂ := reportIp_addedUserFrames H sample (reportLeaf H sample c ip).2 ip
      rw [hk₁] at h₂ hk₂
      rw [ha₁] at ha₂
      rw [reportsFrom_ip sample.ip _ _ hip, reports_append, reports_cons]
      rw [step_ip H hbranch c hip] at hloop ⊢
      generalize (reportLeaf H sample c ip).1 = goOn at *
      generalize (reportLeaf H sample c ip).2.reportIp H sample ip = second at *
      generalize reports H sample t (if leafComes sample.ip c.addedUserFrames c.isKernel ip then
        [.leaf sample.ip] else []) =
        t₁ at *
      obtain ⟨goOn', c₂⟩ := second
      cases goOn with
      | false => cases hloop
      | true =>
        cases goOn' with
        | false => cases hloop
        | true =>
          rw [if_pos rfl, if_pos rfl] at hloop ⊢
          dsimp only at hk₂ ha₂ h₂ hloop ⊢
          obtain ⟨hk₃, ha₃, h₃⟩ := h₂.addUserFrames
          have hrest := loop_reports hbranch ips h₃ hips' hloop
          rw [hk₃.trans hk₂, ha₃.trans (congrArg₂ (fun added kernel => added || !kernel) ha₂ hk₂)] at hrest
          exact hrest

/-! ## The frames -/

variable (sample) in
/-- No lookup of the callchain dirties a cache, which would end the loop. -/
def NoneDirtied (s : SymbolTables) (info : UnwindInfo) : Prop :=
  (Callchain.loop H sample { tables := s.symbolTable sample.pid, info := info, pid := sample.pid }
    sample.callchain).1 = true

instance (s : SymbolTables) (info : UnwindInfo) : Decidable (NoneDirtied H sample s info) :=
  inferInstanceAs (Decidable (_ = true))

/-- **What `resolveCallchain` reports**: the instruction pointers, and the leaf where it is not the first of the
process. -/
theorem resolveCallchain_reports (hbranch : sample.branchStack = [])
    (hips : ∀ ip ∈ sample.callchain, ip > PERF_CONTEXT_MAX → IsMarker ip) {s : SymbolTables} {info : UnwindInfo}
    (hclean : NoneDirtied H sample s info) : (resolveCallchain H sample s info).2 =
      (reports H sample (s, info) (withLeaf sample.ip (ipReports false sample.callchain))).2 := by
  have halike : (s.symbolTable sample.pid).Alike s := Alike.symbolTable ⟨rfl, fun _ => rfl⟩ sample.pid
  have hloop := loop_reports H hbranch sample.callchain
    (c := { tables := s.symbolTable sample.pid, info := info, pid := sample.pid }) (t := (s, info)) ⟨halike, rfl, rfl⟩
    hips hclean
  have hnone : branchIps sample.branchStack = [] := by rw [hbranch]; rfl
  unfold resolveCallchain
  dsimp only
  rw [hnone]
  generalize Callchain.loop H sample { tables := s.symbolTable sample.pid, info := info, pid := sample.pid }
    sample.callchain = left at hloop ⊢
  obtain ⟨goOn, c⟩ := left
  have hinfo : (if goOn && !c.isKernel then Callchain.reportAll H sample c [] else c) = c := by
    split <;> rfl
  dsimp only at hloop ⊢
  rw [hinfo]
  exact hloop.info

/-- **The frames are the expected ones exactly where the leaf is known**: no instruction pointer of the kernel comes
before those of the process, or the first of the process is the sample's own. -/
theorem resolveCallchain_frames_iff (H : Host) (sample : PerfRecordSample) (s : SymbolTables) (info : UnwindInfo)
    (hbranch : sample.branchStack = []) (hips : ∀ ip ∈ sample.callchain, ip > PERF_CONTEXT_MAX → IsMarker ip)
    (hclean : NoneDirtied H sample s info) :
    (resolveCallchain H sample s info).2.frames =
        (reports H sample (s, info) (expectedReports sample.ip (ipReports false sample.callchain))).2.frames ↔
      LeafKnown sample.ip (ipReports false sample.callchain) := by
  rw [resolveCallchain_reports H hbranch hips hclean]
  constructor
  · intro hframes
    have hlen := congrArg List.length hframes
    rw [reports_frames_length, reports_frames_length, Nat.add_left_cancel_iff] at hlen
    exact (expectedReports_eq_iff _ _).1 hlen.symm
  · intro hleaf
    rw [expectedReports_of_leafKnown hleaf]

/-- A sample in user mode, and one in the kernel. -/
def userSample : PerfRecordSample where
  ip := 0x400000
  callchain := [PERF_CONTEXT_USER, 0x400000, 0x400100]

@[inherit_doc userSample]
def kernelSample : PerfRecordSample where
  ip := 0xffffffff81000000
  callchain := [PERF_CONTEXT_KERNEL, 0xffffffff81000000, PERF_CONTEXT_USER, 0x400000]

theorem userSample_markers : ∀ ip ∈ userSample.callchain, ip > PERF_CONTEXT_MAX → IsMarker ip := by
  intro ip hip
  simp only [userSample, List.mem_cons, List.not_mem_nil, or_false] at hip
  rcases hip with rfl | rfl | rfl <;> decide

theorem kernelSample_markers : ∀ ip ∈ kernelSample.callchain, ip > PERF_CONTEXT_MAX → IsMarker ip := by
  intro ip hip
  simp only [kernelSample, List.mem_cons, List.not_mem_nil, or_false] at hip
  rcases hip with rfl | rfl | rfl | rfl <;> decide

theorem resolveCallchain_frames_user :
    (resolveCallchain PerfUnwind.noFiles userSample {} {}).2.frames =
        (reports PerfUnwind.noFiles userSample ({}, {})
          (expectedReports userSample.ip (ipReports false userSample.callchain))).2.frames ↔
      LeafKnown userSample.ip (ipReports false userSample.callchain) :=
  resolveCallchain_frames_iff PerfUnwind.noFiles userSample {} {} rfl userSample_markers (by decide)

/-- A sample in the kernel gets its own address once more, as a frame of the process. -/
theorem resolveCallchain_frames_kernel : ¬∀ (sample : PerfRecordSample) (s : SymbolTables) (info : UnwindInfo),
    sample.branchStack = [] → (∀ ip ∈ sample.callchain, ip > PERF_CONTEXT_MAX → IsMarker ip) →
    NoneDirtied PerfUnwind.noFiles sample s info →
    (resolveCallchain PerfUnwind.noFiles sample s info).2.frames =
      (reports PerfUnwind.noFiles sample (s, info)
        (expectedReports sample.ip (ipReports false sample.callchain))).2.frames := by
  intro h
  have hframes := congrArg List.length (h kernelSample {} {} rfl kernelSample_markers (by decide))
  rw [reports_frames_length] at hframes
  revert hframes
  decide

end SymbolTables

end PerfParser
