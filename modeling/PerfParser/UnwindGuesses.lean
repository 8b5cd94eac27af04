import PerfParser.Output
import PerfParser.UnwindMemory
/-!
# UnwindGuesses — the first guessed frame, whatever libdwfl calls (`perfunwind.cpp`)

While a sample is analysed libdwfl calls back for frames, words of memory and debug information as it likes.  Two of
the callbacks set `firstGuessedFrame` to the number of the frames so far, and an interworking veneer has the frames
truncated and unwound again, with the longer of the two lists kept.  In the end the first guessed frame is never past
the frames (`analyze_guessed`).
-/
namespace PerfParser

open PerfRegisterInfo (Architecture Abi)

/-- A callback of libdwfl while it unwinds a thread.  `reads` are the words it reads when `frameCallback` asks it
whether the frame is an activation, which may advance the unwinder. -/
inductive Callback
  | frame (state : FrameState) (reads : List UInt64)
  | memoryRead (addr : UInt64)
  | findDebugInfo
deriving DecidableEq, Repr

/-- The callbacks of an unwinding, and of another one after an interworking veneer. -/
structure Unwinding where
  first : List Callback := []
  again : List Callback := []
deriving DecidableEq, Repr, Inhabited

/-- When a cache is dirty, `analyze` cleans it up. -/
def SymbolTables.clearDirty (s : SymbolTables) (pid : Int32) (userDirty kernelDirty : Bool) : SymbolTables :=
  let s := if userDirty then s.set pid (s.table pid).clearCache else s
  if kernelDirty then s.set kernelPid (s.table kernelPid).clearCache else s

/-- `QVector::resize`. -/
def resizeFrames (frames : List Int) (size : Nat) : List Int :=
  (frames ++ List.replicate (size - frames.length) 0).take size

section

variable (H : Host) (addressSection : Module → UInt64 → Option (UInt64 × Option QByteArray))
  (architecture : Architecture) (abi : Abi) (sample : PerfRecordSample)

namespace UnwindMemory

def readAll (m : UnwindMemory) (addrs : List UInt64) : UnwindMemory :=
  addrs.foldl (fun m addr => (memoryRead H addressSection architecture abi sample m addr).memory) m

/-- `frameCallback`: whether libdwfl goes on. -/
def frameCallback (m : UnwindMemory) (state : FrameState) (reads : List UInt64) : Bool × UnwindMemory :=
  let pc := state.pc.getD 0
  if state.pc.isNone ∨ (H.maxFrames ≠ -1 ∧ (m.info.frames.length : Int) > H.maxFrames) ∨ pc = 0 then (false, m.guess)
  else
    let s := m.tables.symbolTable sample.pid
    let t := s.table sample.pid
    -- ensure the module is reported
    let m := { m with tables := s.set sample.pid (t.module H pc (t.elfs.findElf pc)).2 }
    -- now we can query for the activation flag
    let m := m.readAll H addressSection architecture abi sample reads
    let (entry, s) := m.tables.lookupFrame H sample.pid (pc - (if state.isActivation then 0 else 1)) false
    let m := { m with tables := s }
    if (s.table sample.pid).cacheIsDirty then (false, m)
    else
      let info := { m.info with frames := m.info.frames ++ [entry.locationId] }
      (true, { m with
        info := if entry.isInterworking && info.frames.length = 1 then { info with isInterworking := true } else info })

def callback (m : UnwindMemory) : Callback → Bool × UnwindMemory
  | .frame state reads => m.frameCallback H addressSection architecture abi sample state reads
  | .memoryRead addr => (true, (PerfParser.memoryRead H addressSection architecture abi sample m addr).memory)
  | .findDebugInfo => (true, { m with tables := m.tables.findAllDebugInfo H })

/-- `dwfl_getthread_frames`: the callbacks, up to the frame that aborts. -/
def getthreadFrames : UnwindMemory → List Callback → UnwindMemory
  | m, [] => m
  | m, c :: callbacks =>
    match m.callback H addressSection architecture abi sample c with
    | (true, m) => getthreadFrames m callbacks
    | (false, m) => m

/-- `PerfUnwind::unwindStack`. -/
def unwindStack (m : UnwindMemory) (x : Unwinding) : UnwindMemory :=
  let s := m.tables.symbolTable sample.pid
  let (attached, t) := (s.table sample.pid).attachDwfl H sample
  let m := { m with tables := s.set sample.pid t }
  if !attached then m
  else
    let m := m.getthreadFrames H addressSection architecture abi sample x.first
    if m.info.isInterworking then
      let savedFrames := m.info.frames
      -- keep the actual veneer frame
      let m := { m with info := { m.info with frames := resizeFrames m.info.frames 1 } }
      let m := m.getthreadFrames H addressSection architecture abi sample x.again
      if savedFrames.length > m.info.frames.length then { m with info := { m.info with frames := savedFrames } } else m
    else m

/-- An attempt of `analyze` to unwind: whether to try again. -/
def attempt (m : UnwindMemory) (x : Unwinding) : Bool × UnwindMemory :=
  let s := m.tables.set sample.pid ((m.tables.table sample.pid).updatePerfMap H)
  let (s, info) :=
    if !sample.callchain.isEmpty || !sample.branchStack.isEmpty then s.resolveCallchain H sample {} else (s, {})
  let m := { m with tables := s, info := info }
  let userDirty := (m.tables.table sample.pid).cacheIsDirty
  let kernelDirty := (m.tables.table kernelPid).cacheIsDirty
  let unwinds := !userDirty && !kernelDirty
  -- only try to unwind when resolveCallchain did not dirty the cache
  if unwinds && (sample.registerAbi = 0 || sample.userStack.isEmpty) then (false, m)
  else
    let m := if unwinds then m.unwindStack H addressSection architecture abi sample x else m
    let userDirty := if unwinds then (m.tables.table sample.pid).cacheIsDirty else userDirty
    (userDirty || kernelDirty, { m with tables := m.tables.clearDirty sample.pid userDirty kernelDirty })

/-- `PerfUnwind::analyze`, up to the record it sends, with the callbacks of its two attempts. -/
def analyze (m : UnwindMemory) (x x' : Unwinding) : UnwindMemory :=
  let m := { m with tables := (m.tables.symbolTable kernelPid).symbolTable sample.pid }
  let (again, m) := m.attempt H addressSection architecture abi sample x
  let m := if again then (m.attempt H addressSection architecture abi sample x').2 else m
  -- if nothing was found, at least look up the IP
  if m.info.frames.isEmpty then
    let isKernel := m.tables.ipIsInKernelSpace sample.ip
    let (entry, s) := m.tables.lookupFrame H (if isKernel then kernelPid else sample.pid) sample.ip isKernel
    { m with
      tables := s
      info := { m.info with frames := [entry.locationId], isInterworking := entry.isInterworking } }
  else m

end UnwindMemory

/-! ## The first guessed frame -/

/-- The first guessed frame is none, or no later than the end of the frames, or of some that are saved. -/
structure UnwindInfo.Guessed (info : UnwindInfo) (saved : Nat) : Prop where
  none_le : -1 ≤ info.firstGuessedFrame
  le_frames : info.firstGuessedFrame ≤ max saved info.frames.length

variable {H addressSection architecture abi sample} {m : UnwindMemory} {saved : Nat}

theorem UnwindInfo.Guessed.mono {info info' : UnwindInfo} (h : info.Guessed saved)
    (hfirst : info'.firstGuessedFrame = info.firstGuessedFrame) (hframes : info.frames.length ≤ info'.frames.length) :
    info'.Guessed saved where
  none_le := hfirst ▸ h.none_le
  le_frames := by
    have := h.le_frames
    omega

namespace UnwindMemory

theorem guessed_guess (m : UnwindMemory) (saved : Nat) : m.guess.info.Guessed saved where
  none_le := by
    show (-1 : Int) ≤ m.info.frames.length
    omega
  le_frames := by
    show (m.info.frames.length : Int) ≤ max saved m.info.frames.length
    omega

/-- A read changes nothing of the frames, but may have the next ones guessed. -/
theorem memoryRead_info (H : Host) (addressSection : Module → UInt64 → Option (UInt64 × Option QByteArray))
    (architecture : Architecture) (abi : Abi) (sample : PerfRecordSample) (m : UnwindMemory) (addr : UInt64) :
    (memoryRead H addressSection architecture abi sample m addr).memory.info = m.info ∨
      (memoryRead H addressSection architecture abi sample m addr).memory.info = m.guess.info := by
  unfold memoryRead
  split
  · exact .inr rfl
  · dsimp only
    split
    · unfold readOutside
      split
      · exact .inl rfl
      · cases haccess : accessDsoMem H addressSection m.tables sample.pid addr
          (PerfRegisterInfo.wordWidth architecture abi) with
        | mk copy tables =>
          cases copy with
          | some copy => exact .inl rfl
          | none => exact .inr rfl
    · exact .inl rfl

theorem guessed_memoryRead (h : m.info.Guessed saved) (addr : UInt64) :
    (memoryRead H addressSection architecture abi sample m addr).memory.info.Guessed saved := by
  rcases memoryRead_info H addressSection architecture abi sample m addr with hinfo | hinfo
  · rw [hinfo]
    exact h
  · rw [hinfo]
    exact guessed_guess m saved

theorem guessed_readAll : ∀ (addrs : List UInt64) {m : UnwindMemory}, m.info.Guessed saved →
    (m.readAll H addressSection architecture abi sample addrs).info.Guessed saved
  | [], _, h => h
  | addr :: addrs, _, h => guessed_readAll addrs (guessed_memoryRead h addr)

theorem guessed_frameCallback (h : m.info.Guessed saved) (state : FrameState) (reads : List UInt64) :
    (m.frameCallback H addressSection architecture abi sample state reads).2.info.Guessed saved := by
  unfold frameCallback
  dsimp only
  by_cases hstop : state.pc.isNone = true ∨ (H.maxFrames ≠ -1 ∧ (m.info.frames.length : Int) > H.maxFrames) ∨
      state.pc.getD 0 = 0
  · rw [if_pos hstop]
    exact guessed_guess m saved
  · rw [if_neg hstop]
    generalize SymbolTables.set _ _ _ = tables
    have hreads : (UnwindMemory.readAll H addressSection architecture abi sample { m with tables := tables }
        reads).info.Guessed saved := guessed_readAll reads h
    generalize UnwindMemory.readAll H addressSection architecture abi sample _ reads = m' at hreads ⊢
    generalize SymbolTables.lookupFrame H m'.tables _ _ _ = r
    obtain ⟨entry, s⟩ := r
    dsimp only
    split
    · exact hreads
    · have hframes : m'.info.frames.length ≤ (m'.info.frames ++ [entry.locationId]).length := by simp
      split
      · exact hreads.mono rfl hframes
      · exact hreads.mono rfl hframes

/-- **A callback** keeps the first guessed frame. -/
theorem guessed_callback (h : m.info.Guessed saved) (c : Callback) :
    (m.callback H addressSection architecture abi sample c).2.info.Guessed saved := by
  cases c with
  | frame state reads => exact guessed_frameCallback h state reads
  | memoryRead addr => exact guessed_memoryRead h addr
  | findDebugInfo => exact h

/-- **Any callbacks** keep the first guessed frame. -/
theorem guessed_getthreadFrames : ∀ (callbacks : List Callback) {m : UnwindMemory}, m.info.Guessed saved →
    (m.getthreadFrames H addressSection architecture abi sample callbacks).info.Guessed saved
  | [], _, h => h
  | c :: callbacks, m, h => by
    have hc : (m.callback H addressSection architecture abi sample c).2.info.Guessed saved := guessed_callback h c
    unfold getthreadFrames
    rcases hstep : m.callback H addressSection architecture abi sample c with ⟨_ | _, m'⟩
    · rw [hstep] at hc
      exact hc
    · rw [hstep] at hc
      exact guessed_getthreadFrames callbacks hc

/-- **Unwinding** ends with the first guessed frame within the frames it keeps. -/
theorem guessed_unwindStack (h : m.info.Guessed 0) (x : Unwinding) :
    (m.unwindStack H addressSection architecture abi sample x).info.Guessed 0 := by
  unfold unwindStack
  dsimp only
  generalize m.tables.symbolTable sample.pid = s
  generalize PerfSymbolTable.attachDwfl H (s.table sample.pid) sample = r
  obtain ⟨attached, t⟩ := r
  dsimp only
  split
  · exact h
  · have hfirst : (UnwindMemory.getthreadFrames H addressSection architecture abi sample
        { m with tables := s.set sample.pid t } x.first).info.Guessed 0 := guessed_getthreadFrames x.first h
    generalize UnwindMemory.getthreadFrames H addressSection architecture abi sample
      { m with tables := s.set sample.pid t } x.first = m₁ at hfirst ⊢
    split
    · -- the frames that are truncated are saved, so what was guessed of them stays within the saved ones
      have htruncated : ({ m₁.info with frames := resizeFrames m₁.info.frames 1 } : UnwindInfo).Guessed
          m₁.info.frames.length := by
        refine ⟨hfirst.none_le, ?_⟩
        have := hfirst.le_frames
        show m₁.info.firstGuessedFrame ≤ (max m₁.info.frames.length _ : Nat)
        omega
      have hagain : (UnwindMemory.getthreadFrames H addressSection architecture abi sample
          { m₁ with info := { m₁.info with frames := resizeFrames m₁.info.frames 1 } } x.again).info.Guessed
          m₁.info.frames.length := guessed_getthreadFrames x.again htruncated
      generalize UnwindMemory.getthreadFrames H addressSection architecture abi sample
        { m₁ with info := { m₁.info with frames := resizeFrames m₁.info.frames 1 } } x.again = m₂ at hagain ⊢
      have hle := hagain.le_frames
      split
      · refine ⟨hagain.none_le, ?_⟩
        show m₂.info.firstGuessedFrame ≤ (max 0 m₁.info.frames.length : Nat)
        omega
      · exact ⟨hagain.none_le, by omega⟩
    · exact hfirst

end UnwindMemory

/-! ## A sample -/

namespace SymbolTables

section Callchain

variable {P : UnwindInfo → Prop}
  (hreport : ∀ (c : Callchain) (ip : UInt64), P c.info → P (c.reportIp H sample ip).2.info)

include hreport

theorem info_step {c : Callchain} (h : P c.info) (ip : UInt64) : P (c.step H sample ip).2.info := by
  unfold Callchain.step
  split
  · split
    · dsimp only
      split <;> exact h
    · split
      · dsimp only
        split <;> exact h
      · exact h
  · have hleaf : P (if !c.addedUserFrames && !c.isKernel && ip != sample.ip then c.reportIp H sample sample.ip
        else (true, c)).2.info := by
      split
      · exact hreport c sample.ip h
      · exact h
    generalize (if !c.addedUserFrames && !c.isKernel && ip != sample.ip then c.reportIp H sample sample.ip
      else (true, c)) = r at hleaf
    obtain ⟨goOn, c₁⟩ := r
    have hip := hreport c₁ ip hleaf
    dsimp only
    split
    · exact hleaf
    · split
      · exact hleaf
      · generalize c₁.reportIp H sample ip = r₂ at hip ⊢
        obtain ⟨goOn₂, c₂⟩ := r₂
        dsimp only
        split
        · exact hip
        · dsimp only
          split <;> exact hip

theorem info_loop : ∀ (ips : List UInt64) {c : Callchain}, P c.info → P (c.loop H sample ips).2.info
  | [], _, h => h
  | ip :: ips, c, h => by
    have hstep := info_step hreport h ip
    unfold Callchain.loop
    rcases hs : c.step H sample ip with ⟨_ | _ | _, c'⟩
    · rw [hs] at hstep
      exact hstep
    · rw [hs] at hstep
      exact hstep
    · rw [hs] at hstep
      exact info_loop ips hstep

theorem info_reportAll : ∀ (ips : List UInt64) {c : Callchain}, P c.info → P (c.reportAll H sample ips).info
  | [], _, h => h
  | ip :: ips, c, h => by
    have hip := hreport c ip h
    unfold Callchain.reportAll
    rcases hr : c.reportIp H sample ip with ⟨_ | _, c'⟩
    · rw [hr] at hip
      exact hip
    · rw [hr] at hip
      exact info_reportAll ips hip

/-- **What every report keeps, the callchain keeps.** -/
theorem info_resolveCallchain (s : SymbolTables) {info : UnwindInfo} (h : P info) :
    P (s.resolveCallchain H sample info).2 := by
  have hloop := info_loop hreport (c := { tables := s.symbolTable sample.pid, info := info, pid := sample.pid })
    sample.callchain h
  unfold resolveCallchain
  dsimp only
  generalize Callchain.loop H sample _ sample.callchain = r at hloop ⊢
  obtain ⟨goOn, c⟩ := r
  dsimp only
  split
  · exact info_reportAll hreport _ hloop
  · exact hloop

end Callchain

end SymbolTables

/-- Nothing of the frames of a callchain is guessed, and an interworking veneer is one of them. -/
structure UnwindInfo.Unguessed (info : UnwindInfo) : Prop where
  firstGuessedFrame : info.firstGuessedFrame = -1
  isInterworking : info.isInterworking = true → info.frames ≠ []

theorem unguessed_empty : ({} : UnwindInfo).Unguessed := ⟨rfl, fun h => nomatch h⟩

theorem unguessed_resolveCallchain (s : SymbolTables) : (s.resolveCallchain H sample {}).2.Unguessed := by
  refine SymbolTables.info_resolveCallchain (fun c ip h => ?_) s unguessed_empty
  rw [SymbolTables.Callchain.reportIp]
  exact ⟨h.firstGuessedFrame, fun _ => List.append_ne_nil_of_right_ne_nil _ (List.cons_ne_nil _ _)⟩

theorem UnwindInfo.Unguessed.guessed {info : UnwindInfo} (h : info.Unguessed) : info.Guessed 0 where
  none_le := Int.le_of_eq h.firstGuessedFrame.symm
  le_frames := by
    have := h.firstGuessedFrame
    omega

/-- `numGuessed`, which `analyze` asserts not to be negative. -/
def UnwindInfo.numGuessed (info : UnwindInfo) : Int := info.frames.length - info.firstGuessedFrame

namespace UnwindMemory

variable (H sample) in
/-- The state in which an attempt to unwind starts. -/
def resolved (m : UnwindMemory) : UnwindMemory :=
  let s := m.tables.set sample.pid ((m.tables.table sample.pid).updatePerfMap H)
  let (s, info) :=
    if !sample.callchain.isEmpty || !sample.branchStack.isEmpty then s.resolveCallchain H sample {} else (s, {})
  { m with tables := s, info := info }

theorem unguessed_resolved (H : Host) (sample : PerfRecordSample) (m : UnwindMemory) :
    (m.resolved H sample).info.Unguessed := by
  unfold resolved
  dsimp only
  split
  · exact unguessed_resolveCallchain _
  · exact unguessed_empty

/-- **An attempt** leaves what it started with, or what unwinding has. -/
theorem attempt_info (H : Host) (addressSection : Module → UInt64 → Option (UInt64 × Option QByteArray))
    (architecture : Architecture) (abi : Abi) (sample : PerfRecordSample) (m : UnwindMemory) (x : Unwinding) :
    (m.attempt H addressSection architecture abi sample x).2.info = (m.resolved H sample).info ∨
      (m.attempt H addressSection architecture abi sample x).2.info =
        ((m.resolved H sample).unwindStack H addressSection architecture abi sample x).info := by
  unfold attempt resolved
  dsimp only
  generalize (if (!sample.callchain.isEmpty || !sample.branchStack.isEmpty) = true then
    SymbolTables.resolveCallchain H sample _ {} else _) = r
  obtain ⟨s, info⟩ := r
  dsimp only
  split
  · exact .inl rfl
  · dsimp only
    split
    · exact .inr rfl
    · exact .inl rfl

theorem guessed_attempt (H : Host) (addressSection : Module → UInt64 → Option (UInt64 × Option QByteArray))
    (architecture : Architecture) (abi : Abi) (sample : PerfRecordSample) (m : UnwindMemory) (x : Unwinding) :
    (m.attempt H addressSection architecture abi sample x).2.info.Guessed 0 := by
  have hresolved := (unguessed_resolved H sample m).guessed
  rcases attempt_info H addressSection architecture abi sample m x with hinfo | hinfo
  · rw [hinfo]
    exact hresolved
  · rw [hinfo]
    exact guessed_unwindStack hresolved x

theorem guessed_analyze (H : Host) (addressSection : Module → UInt64 → Option (UInt64 × Option QByteArray))
    (architecture : Architecture) (abi : Abi) (sample : PerfRecordSample) (m : UnwindMemory) (x x' : Unwinding) :
    (m.analyze H addressSection architecture abi sample x x').info.Guessed 0 := by
  unfold analyze
  dsimp only
  have hx := guessed_attempt H addressSection architecture abi sample
    { m with tables := (m.tables.symbolTable kernelPid).symbolTable sample.pid } x
  generalize UnwindMemory.attempt H addressSection architecture abi sample _ x = r at hx ⊢
  obtain ⟨again, m₁⟩ := r
  have hx' : (if again then (m₁.attempt H addressSection architecture abi sample x').2 else m₁).info.Guessed 0 := by
    split
    · exact guessed_attempt H addressSection architecture abi sample m₁ x'
    · exact hx
  dsimp only
  generalize (if again = true then (m₁.attempt H addressSection architecture abi sample x').2 else m₁) = m₂ at hx' ⊢
  by_cases hempty : m₂.info.frames.isEmpty = true
  · rw [if_pos hempty]
    -- what was guessed of no frames is guessed of the address as well
    refine hx'.mono rfl ?_
    rw [List.isEmpty_iff.1 hempty]
    exact Nat.zero_le _
  · rw [if_neg hempty]
    exact hx'

/-- **The first guessed frame of a sample**, whatever callbacks libdwfl makes in its attempts to unwind it and in
whatever order, is none or at most the number of the frames, and as many are guessed as are not before it. -/
theorem analyze_guessed (H : Host) (addressSection : Module → UInt64 → Option (UInt64 × Option QByteArray))
    (architecture : Architecture) (abi : Abi) (sample : PerfRecordSample) (m : UnwindMemory) (x x' : Unwinding) :
    ((m.analyze H addressSection architecture abi sample x x').info.firstGuessedFrame = -1 ∨
        0 ≤ (m.analyze H addressSection architecture abi sample x x').info.firstGuessedFrame ∧
          (m.analyze H addressSection architecture abi sample x x').info.firstGuessedFrame ≤
            (m.analyze H addressSection architecture abi sample x x').info.frames.length) ∧
      ((m.analyze H addressSection architecture abi sample x x').info.firstGuessedFrame ≠ -1 →
        0 ≤ (m.analyze H addressSection architecture abi sample x x').info.numGuessed) := by
  have hguessed := guessed_analyze H addressSection architecture abi sample m x x'
  have hnone := hguessed.none_le
  have hframes := hguessed.le_frames
  unfold UnwindInfo.numGuessed
  omega

/-- What the receiver is told of them is that number, or 255 if it is more. -/
theorem analyze_numGuessedFrames (H : Host) (addressSection : Module → UInt64 → Option (UInt64 × Option QByteArray))
    (architecture : Architecture) (abi : Abi) (sample : PerfRecordSample) (m : UnwindMemory) (x x' : Unwinding)
    (hfirst : (m.analyze H addressSection architecture abi sample x x').info.firstGuessedFrame ≠ -1) :
    ((m.analyze H addressSection architecture abi sample x x').info.numGuessedFrames.toNat : Int) =
      min 255 (m.analyze H addressSection architecture abi sample x x').info.numGuessed := by
  have hguessed := guessed_analyze H addressSection architecture abi sample m x x'
  have hnone := hguessed.none_le
  have hframes := hguessed.le_frames
  rw [UnwindInfo.numGuessedFrames, if_pos hfirst, UInt8.ofInt, UInt8.toNat_ofNat', UnwindInfo.numGuessed]
  omega

/-! ## The frames that the symbol tables are told of -/

/-- The callbacks that tell of frames, with the debug information looked for between them. -/
def framesOnly (states : List FrameState) : List Callback :=
  states.flatMap (fun state => [.findDebugInfo, .frame state []]) ++ [.findDebugInfo]

section

variable (H addressSection architecture abi sample)

theorem frameCallback_noReads (m : UnwindMemory) (state : FrameState) :
    m.frameCallback H addressSection architecture abi sample state [] =
      ((SymbolTables.frameCallback H sample m.tables m.info state).1,
        { m with
          tables := (SymbolTables.frameCallback H sample m.tables m.info state).2.1
          info := (SymbolTables.frameCallback H sample m.tables m.info state).2.2 }) := by
  unfold frameCallback SymbolTables.frameCallback
  dsimp only [readAll, List.foldl_nil]
  by_cases hstop : state.pc.isNone = true ∨ (H.maxFrames ≠ -1 ∧ (m.info.frames.length : Int) > H.maxFrames) ∨
      state.pc.getD 0 = 0
  · rw [if_pos hstop, if_pos hstop]
    rfl
  · simp only [if_neg hstop]
    generalize SymbolTables.lookupFrame H _ _ _ _ = r
    obtain ⟨entry, s⟩ := r
    dsimp only
    split <;> rfl

theorem getthreadFrames_framesOnly : ∀ (states : List FrameState) (m : UnwindMemory),
    m.getthreadFrames H addressSection architecture abi sample (framesOnly states) =
      { m with
        tables := (SymbolTables.threadFrames H sample m.tables m.info states).1
        info := (SymbolTables.threadFrames H sample m.tables m.info states).2 }
  | [], _ => rfl
  | state :: states, m => by
    show UnwindMemory.getthreadFrames H addressSection architecture abi sample
      { m with tables := m.tables.findAllDebugInfo H } (.frame state [] :: framesOnly states) = _
    unfold getthreadFrames SymbolTables.threadFrames
    dsimp only [callback]
    rw [frameCallback_noReads]
    dsimp only
    rcases SymbolTables.frameCallback H sample (m.tables.findAllDebugInfo H) m.info state with ⟨_ | _, s, info⟩
    · rfl
    · exact getthreadFrames_framesOnly states { m with tables := s, info := info }

theorem veneer_frameCallback (s : SymbolTables) {info : UnwindInfo} (h : info.isInterworking = true → info.frames ≠ [])
    (state : FrameState) :
    (SymbolTables.frameCallback H sample s info state).2.2.isInterworking = true →
      (SymbolTables.frameCallback H sample s info state).2.2.frames ≠ [] := by
  unfold SymbolTables.frameCallback
  dsimp only
  split
  · exact h
  · generalize SymbolTables.lookupFrame H _ _ _ _ = r
    split
    · exact h
    · intro _
      split <;> exact List.append_ne_nil_of_right_ne_nil _ (List.cons_ne_nil _ _)

theorem veneer_threadFrames : ∀ (states : List FrameState) (s : SymbolTables) {info : UnwindInfo},
    (info.isInterworking = true → info.frames ≠ []) →
      (SymbolTables.threadFrames H sample s info states).2.isInterworking = true →
        (SymbolTables.threadFrames H sample s info states).2.frames ≠ []
  | [], _, _, h => h
  | state :: states, s, info, h => by
    have hstep := veneer_frameCallback H sample (s.findAllDebugInfo H) h state
    unfold SymbolTables.threadFrames
    rcases hs : SymbolTables.frameCallback H sample (s.findAllDebugInfo H) info state with ⟨_ | _, s', info'⟩
    · rw [hs] at hstep
      exact hstep
    · rw [hs] at hstep
      exact veneer_threadFrames states s' hstep

theorem resizeFrames_one {frames : List Int} (h : frames ≠ []) : resizeFrames frames 1 = frames.take 1 := by
  obtain ⟨frame, frames, rfl⟩ := List.exists_cons_of_ne_nil h
  rfl

theorem unwindStack_framesOnly (m : UnwindMemory) (h : m.info.isInterworking = true → m.info.frames ≠ []) :
    ∃ x, m.unwindStack H addressSection architecture abi sample x =
      { m with
        tables := (SymbolTables.unwindStack H sample m.tables m.info).1
        info := (SymbolTables.unwindStack H sample m.tables m.info).2 } := by
  unfold unwindStack SymbolTables.unwindStack
  dsimp only
  generalize PerfSymbolTable.attachDwfl H _ sample = r
  obtain ⟨attached, t⟩ := r
  generalize (m.tables.symbolTable sample.pid).set sample.pid t = s
  dsimp only
  cases attached with
  | false => exact ⟨{}, rfl⟩
  | true =>
    have hveneer := veneer_threadFrames H sample (H.threadFrames s sample m.info) s h
    have hfirst := getthreadFrames_framesOnly H addressSection architecture abi sample
      (H.threadFrames s sample m.info) { m with tables := s }
    dsimp only at hfirst
    generalize SymbolTables.threadFrames H sample s m.info (H.threadFrames s sample m.info) = r at hveneer hfirst
    obtain ⟨s₁, info₁⟩ := r
    dsimp only at hveneer hfirst
    generalize hretried : ({ info₁ with frames := info₁.frames.take 1 } : UnwindInfo) = retried
    refine ⟨⟨framesOnly (H.threadFrames s sample m.info), framesOnly (H.threadFrames s₁ sample retried)⟩, ?_⟩
    simp only [Bool.not_true, Bool.false_eq_true, if_false, hfirst]
    by_cases hinter : info₁.isInterworking = true
    · simp only [if_pos hinter, resizeFrames_one (hveneer hinter), hretried, getthreadFrames_framesOnly]
      generalize SymbolTables.threadFrames H sample s₁ retried _ = r
      split <;> rfl
    · simp only [if_neg hinter]

theorem attempt_framesOnly (m : UnwindMemory) :
    ∃ x, m.attempt H addressSection architecture abi sample x =
      ((SymbolTables.attempt H sample m.tables).1,
        { m with
          tables := (SymbolTables.attempt H sample m.tables).2.1
          info := (SymbolTables.attempt H sample m.tables).2.2 }) := by
  have hresolved := (unguessed_resolved H sample m).isInterworking
  obtain ⟨x, hx⟩ := unwindStack_framesOnly H addressSection architecture abi sample (m.resolved H sample) hresolved
  refine ⟨x, ?_⟩
  unfold resolved at hx
  unfold attempt SymbolTables.attempt
  dsimp only at hx ⊢
  generalize (if (!sample.callchain.isEmpty || !sample.branchStack.isEmpty) = true then
    SymbolTables.resolveCallchain H sample _ {} else _) = r at hx ⊢
  obtain ⟨s, info⟩ := r
  dsimp only at hx ⊢
  split
  · rfl
  · split
    · simp only [hx]
      rfl
    · rfl

/-- **The symbol tables' analysis of a sample is one with callbacks**: those that tell of the frames that `H` has. -/
theorem analyze_framesOnly (m : UnwindMemory) :
    ∃ x x', m.analyze H addressSection architecture abi sample x x' =
      { m with
        tables := (m.tables.analyze H sample).1
        info := (m.tables.analyze H sample).2 } := by
  obtain ⟨x, hx⟩ := attempt_framesOnly H addressSection architecture abi sample
    { m with tables := (m.tables.symbolTable kernelPid).symbolTable sample.pid }
  dsimp only at hx
  unfold analyze SymbolTables.analyze
  dsimp only
  generalize SymbolTables.attempt H sample _ = r at hx ⊢
  obtain ⟨again, s, info⟩ := r
  obtain ⟨x', hx'⟩ := attempt_framesOnly H addressSection architecture abi sample { m with tables := s, info := info }
  refine ⟨x, x', ?_⟩
  dsimp only at hx hx'
  rw [hx]
  dsimp only
  cases again with
  | false =>
    simp only [Bool.false_eq_true, if_false]
    split <;> rfl
  | true =>
    simp only [if_true, hx']
    split <;> rfl

end

end UnwindMemory

end

end PerfParser
