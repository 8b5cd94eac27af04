import PerfParser.UnwindTrailing
/-!
# UnwindSizes — what a flush subtracts from `m_eventBufferSize`

A flush subtracts the size of an event at four places, while its iterators advance, and erases the events at its end.
The subtractions of a flush are listed here as its loops make them.  On every way through the loops they add up to what
is erased (`flushEventBuffer_takes`), so none of them goes below 0 where the buffered bytes fit.
-/
namespace PerfParser

/-! ## Subtractions -/

/-- A subtraction from `m_eventBufferSize`. -/
structure Subtraction where
  minuend : UInt32
  subtrahend : UInt32
deriving DecidableEq, Repr, Inhabited

/-- The subtractions lead from a size to another, and take as many bytes. -/
inductive Takes : UInt32 → Nat → List Subtraction → UInt32 → Nat → Prop
  | nil (size : UInt32) (bytes : Nat) : Takes size bytes [] size bytes
  | cons {size n size' : UInt32} {bytes bytes' : Nat} {subtractions : List Subtraction}
      (h : Takes (size - n) bytes subtractions size' bytes') :
      Takes size (bytes + n.toNat) (⟨size, n⟩ :: subtractions) size' bytes'

theorem Takes.trans {size size' size'' : UInt32} {bytes bytes' bytes'' : Nat}
    {subtractions subtractions' : List Subtraction} (h : Takes size bytes subtractions size' bytes')
    (h' : Takes size' bytes' subtractions' size'' bytes'') :
    Takes size bytes (subtractions ++ subtractions') size'' bytes'' := by
  induction h with
  | nil => exact h'
  | cons _ ih => exact .cons (ih h')

theorem Takes.snoc {size size' n : UInt32} {bytes bytes' bytes'' : Nat} {subtractions : List Subtraction}
    (h : Takes size bytes subtractions size' bytes') (hbytes : bytes' = bytes'' + n.toNat) :
    Takes size bytes (subtractions ++ [⟨size', n⟩]) (size' - n) bytes'' := by
  subst hbytes
  exact h.trans (.cons (.nil _ _))

/-- **Where the bytes fit, no subtraction goes below 0.** -/
theorem Takes.subtrahend_le {size size' : UInt32} {bytes bytes' : Nat} {subtractions : List Subtraction}
    (h : Takes size bytes subtractions size' bytes') (hle : bytes ≤ size.toNat) :
    ∀ x ∈ subtractions, x.subtrahend ≤ x.minuend := by
  induction h with
  | nil => exact fun x hx => absurd hx List.not_mem_nil
  | @cons size n size' bytes bytes' subtractions _ ih =>
    have hn : n ≤ size := UInt32.le_iff_toNat_le.2 (by omega)
    have hrest : bytes ≤ (size - n).toNat := by
      rw [UInt32.toNat_sub_of_le _ _ hn]
      omega
    intro x hx
    rcases List.mem_cons.1 hx with rfl | hx
    · exact hn
    · exact ih hrest x hx

namespace PerfUnwind

variable {σ : Type} (B : Backend σ)

/-! ## The subtractions of a flush -/

/-- Those of `forwardMmapBuffer`. -/
def forwardMmapSubtractions (timestamp : UInt64) : PerfUnwind σ → List PerfRecordMmap → List Subtraction
  | _, [] => []
  | u, m :: mmaps =>
    if m.time ≤ timestamp then
      ⟨u.eventBufferSize, m.size.toUInt32⟩ :: forwardMmapSubtractions timestamp (u.forwardMmap B m) mmaps
    else []

/-- Those for a task event before a sample. -/
def processTaskSubtractions (u : PerfUnwind σ) (mmaps : List PerfRecordMmap) (e : TaskEvent) : List Subtraction :=
  if u.stats.enabled then [⟨u.eventBufferSize, e.size⟩]
  else
    (match e.forkedFrom with
      | some _ => forwardMmapSubtractions B e.time u mmaps
      | none => []) ++ [⟨(u.beforeSend B mmaps e).1.eventBufferSize, e.size⟩]

def processTasksSubtractions (timestamp : UInt64) :
    PerfUnwind σ → List PerfRecordMmap → List TaskEvent → List Subtraction
  | _, _, [] => []
  | u, mmaps, e :: tasks =>
    if e.time ≤ timestamp then
      processTaskSubtractions B u mmaps e ++
        processTasksSubtractions timestamp (u.processTask B mmaps e).1 (u.processTask B mmaps e).2 tasks
    else []

/-- Those for a sample and for what comes before it. -/
def processSampleSubtractions (f : Flush σ) (s : PerfRecordSample) : List Subtraction :=
  let (u, mmaps, _) := processTasks B s.time f.unwind f.mmapIt f.taskEventIt
  processTasksSubtractions B s.time f.unwind f.mmapIt f.taskEventIt ++ forwardMmapSubtractions B s.time u mmaps ++
    [⟨(u.forwardMmapBuffer B s.time mmaps).1.eventBufferSize, s.size.toUInt32⟩]

def sampleLoopSubtractions (desiredBufferSize : UInt32) : Flush σ → List PerfRecordSample → List Subtraction
  | _, [] => []
  | f, s :: samples =>
    if f.unwind.eventBufferSize > desiredBufferSize then
      if s.time < f.unwind.lastFlushMaxTime then
        let f := { f with violatesTimeOrder := true }
        processSampleSubtractions B f s ++ sampleLoopSubtractions desiredBufferSize (processSample B f s) samples
      else if f.violatesTimeOrder then
        forwardMmapSubtractions B f.unwind.lastFlushMaxTime f.unwind f.mmapIt
      else
        let f := { f with unwind := { f.unwind with lastFlushMaxTime := s.time } }
        processSampleSubtractions B f s ++ sampleLoopSubtractions desiredBufferSize (processSample B f s) samples
    else []

def trailingSubtractions (desiredBufferSize : UInt32) : PerfUnwind σ → List TaskEvent → List Subtraction
  | _, [] => []
  | u, e :: tasks =>
    if u.eventBufferSize > desiredBufferSize then
      let v := u.callUnlessStats B (.sendTaskEvent e)
      ⟨v.eventBufferSize, e.size⟩ ::
        trailingSubtractions desiredBufferSize { v with eventBufferSize := v.eventBufferSize - e.size } tasks
    else []

/-- Those of `flushEventBuffer`, in the order it makes them. -/
def flushSubtractions (u : PerfUnwind σ) (desiredBufferSize : UInt32) : List Subtraction :=
  let f := u.startFlush B
  let (f', _) := sampleLoop B desiredBufferSize f f.unwind.sampleBuffer
  sampleLoopSubtractions B desiredBufferSize f f.unwind.sampleBuffer ++
    trailingSubtractions B desiredBufferSize (f'.leave desiredBufferSize) f'.taskEventIt

/-! ## What the loops take -/

variable {B}

theorem forwardMmapBuffer_takes (samples : List PerfRecordSample) (tasks : List TaskEvent) (t : UInt64) :
    ∀ (u : PerfUnwind σ) (mmaps : List PerfRecordMmap),
    Takes u.eventBufferSize (PerfParser.bufferedBytes samples mmaps tasks) (forwardMmapSubtractions B t u mmaps)
      (forwardMmapBuffer B t u mmaps).1.eventBufferSize
      (PerfParser.bufferedBytes samples (forwardMmapBuffer B t u mmaps).2 tasks)
  | u, [] => .nil _ _
  | u, m :: mmaps => by
    unfold forwardMmapSubtractions forwardMmapBuffer
    split
    · have hsize : (u.forwardMmap B m).eventBufferSize = u.eventBufferSize - m.size.toUInt32 :=
        congrArg (· - _) (eventBufferSize_callUnlessStats u _)
      have hrest := forwardMmapBuffer_takes samples tasks t (u.forwardMmap B m) mmaps
      rw [hsize] at hrest
      rw [bufferedBytes_mmap]
      exact .cons hrest
    · exact .nil _ _

theorem processTask_takes (samples : List PerfRecordSample) (tasks : List TaskEvent) (u : PerfUnwind σ)
    (mmaps : List PerfRecordMmap) (e : TaskEvent) :
    Takes u.eventBufferSize (PerfParser.bufferedBytes samples mmaps (e :: tasks)) (processTaskSubtractions B u mmaps e)
      (u.processTask B mmaps e).1.eventBufferSize
      (PerfParser.bufferedBytes samples (u.processTask B mmaps e).2 tasks) := by
  by_cases hs : u.stats.enabled = true
  · simp only [processTaskSubtractions, processTask, hs, if_true]
    exact Takes.snoc (.nil _ _) (bufferedBytes_task ..)
  · rw [processTask_of_stats (Bool.eq_false_of_not_eq_true hs), processTaskSubtractions, if_neg hs]
    refine Takes.snoc ?_ (bufferedBytes_task ..)
    unfold beforeSend
    cases e.forkedFrom with
    | some parentPid => exact forwardMmapBuffer_takes samples (e :: tasks) e.time u mmaps
    | none => by_cases hd : e.endsProcess = true <;> simp only [hd] <;> exact .nil _ _

theorem processTasks_takes (samples : List PerfRecordSample) (t : UInt64) :
    ∀ (u : PerfUnwind σ) (mmaps : List PerfRecordMmap) (tasks : List TaskEvent),
    Takes u.eventBufferSize (PerfParser.bufferedBytes samples mmaps tasks) (processTasksSubtractions B t u mmaps tasks)
      (processTasks B t u mmaps tasks).1.eventBufferSize
      (PerfParser.bufferedBytes samples (processTasks B t u mmaps tasks).2.1 (processTasks B t u mmaps tasks).2.2)
  | u, mmaps, [] => .nil _ _
  | u, mmaps, e :: tasks => by
    unfold processTasksSubtractions processTasks
    split
    · exact (processTask_takes samples tasks u mmaps e).trans (processTasks_takes samples t _ _ tasks)
    · exact .nil _ _

theorem processSample_takes (samples : List PerfRecordSample) (f : Flush σ) (s : PerfRecordSample) :
    Takes f.unwind.eventBufferSize (PerfParser.bufferedBytes (s :: samples) f.mmapIt f.taskEventIt)
      (processSampleSubtractions B f s) (processSample B f s).unwind.eventBufferSize
      (PerfParser.bufferedBytes samples (processSample B f s).mmapIt (processSample B f s).taskEventIt) := by
  have htasks := processTasks_takes (B := B) (s :: samples) s.time f.unwind f.mmapIt f.taskEventIt
  have hforward := forwardMmapBuffer_takes (B := B) (s :: samples)
    (processTasks B s.time f.unwind f.mmapIt f.taskEventIt).2.2 s.time
    (processTasks B s.time f.unwind f.mmapIt f.taskEventIt).1
    (processTasks B s.time f.unwind f.mmapIt f.taskEventIt).2.1
  have hsize : (processSample B f s).unwind.eventBufferSize = _ - s.size.toUInt32 :=
    congrArg (· - _) (eventBufferSize_callUnlessStats _ (.analyze s))
  rw [hsize]
  exact (htasks.trans hforward).snoc (bufferedBytes_sample ..)

theorem sampleLoop_takes (desired : UInt32) : ∀ (f : Flush σ) (samples : List PerfRecordSample),
    Takes f.unwind.eventBufferSize (PerfParser.bufferedBytes samples f.mmapIt f.taskEventIt)
      (sampleLoopSubtractions B desired f samples) (sampleLoop B desired f samples).1.unwind.eventBufferSize
      (PerfParser.bufferedBytes (sampleLoop B desired f samples).2 (sampleLoop B desired f samples).1.mmapIt
        (sampleLoop B desired f samples).1.taskEventIt)
  | f, [] => .nil _ _
  | f, s :: samples => by
    unfold sampleLoopSubtractions sampleLoop
    split
    · split
      · exact (processSample_takes samples { f with violatesTimeOrder := true } s).trans
          (sampleLoop_takes desired _ samples)
      · split
        · exact forwardMmapBuffer_takes (s :: samples) f.taskEventIt f.unwind.lastFlushMaxTime f.unwind f.mmapIt
        · exact (processSample_takes samples { f with unwind := { f.unwind with lastFlushMaxTime := s.time } } s).trans
            (sampleLoop_takes desired _ samples)
    · exact .nil _ _

theorem trailingLoop_takes (samples : List PerfRecordSample) (mmaps : List PerfRecordMmap) (desired : UInt32) :
    ∀ (u : PerfUnwind σ) (tasks : List TaskEvent),
    Takes u.eventBufferSize (PerfParser.bufferedBytes samples mmaps tasks) (trailingSubtractions B desired u tasks)
      (trailingLoop B desired u tasks).1.eventBufferSize
      (PerfParser.bufferedBytes samples mmaps (trailingLoop B desired u tasks).2)
  | u, [] => .nil _ _
  | u, e :: tasks => by
    unfold trailingSubtractions trailingLoop
    split
    · have hrest := trailingLoop_takes samples mmaps desired
        { u.callUnlessStats B (.sendTaskEvent e) with
          eventBufferSize := (u.callUnlessStats B (.sendTaskEvent e)).eventBufferSize - e.size } tasks
      rw [bufferedBytes_task, ← eventBufferSize_callUnlessStats (B := B) u (.sendTaskEvent e)]
      exact .cons hrest
    · exact .nil _ _

/-- **A flush subtracts what it erases.** -/
theorem flushEventBuffer_takes (u : PerfUnwind σ) (desired : UInt32) :
    Takes u.eventBufferSize u.bufferedBytes (u.flushSubtractions B desired)
      (u.flushEventBuffer B desired).eventBufferSize (u.flushEventBuffer B desired).bufferedBytes := by
  have hstart := startFlush_sorted (B := B) u
  have hsamples := sampleLoop_takes (B := B) desired (u.startFlush B) (u.startFlush B).unwind.sampleBuffer
  rw [hstart.size, hstart.mmaps, hstart.tasks, hstart.samples, bufferedBytes_sort, ← hstart.samples] at hsamples
  have herase : ∀ (v : PerfUnwind σ) samples mmaps tasks,
      (v.eraseUntil samples mmaps tasks).eventBufferSize = v.eventBufferSize ∧
        (v.eraseUntil samples mmaps tasks).bufferedBytes = PerfParser.bufferedBytes samples mmaps tasks := by
    intro v samples mmaps tasks
    unfold eraseUntil countFlush
    dsimp only
    split <;> exact ⟨rfl, rfl⟩
  have hgrow : ∀ v : PerfUnwind σ, (v.growBuffer u.eventBufferSize).eventBufferSize = v.eventBufferSize ∧
      (v.growBuffer u.eventBufferSize).bufferedBytes = v.bufferedBytes := by
    intro v
    have hcore := core_growBuffer v u.eventBufferSize
    refine ⟨(growBuffer_keeps v u.eventBufferSize).2.2, ?_⟩
    unfold bufferedBytes
    rw [show (v.growBuffer u.eventBufferSize).sampleBuffer = v.sampleBuffer from congrArg Core.samples hcore,
      show (v.growBuffer u.eventBufferSize).mmapBuffer = v.mmapBuffer from congrArg Core.mmaps hcore,
      show (v.growBuffer u.eventBufferSize).taskEventsBuffer = v.taskEventsBuffer from congrArg Core.tasks hcore]
  have hloops : Takes u.eventBufferSize u.bufferedBytes (u.flushSubtractions B desired)
      (flushLoops B (u.startFlush B) desired).1.eventBufferSize
      (flushLoops B (u.startFlush B) desired).1.bufferedBytes := by
    unfold flushSubtractions flushLoops
    dsimp only
    rw [(herase _ _ _ _).1, (herase _ _ _ _).2]
    exact hsamples.trans (trailingLoop_takes _ _ desired (Flush.leave _ desired) _)
  unfold flushEventBuffer
  dsimp only
  split
  · rw [(hgrow _).1, (hgrow _).2]
    exact hloops
  · exact hloops

/-- **The buffer size is accounted for** after every run, and every flush in it subtracts the sizes of what it erases,
none of them below 0 where the bytes that it starts with fit. -/
theorem run_accounts (B : Backend σ) (back : σ) (printStats : Bool) (targetSize maxSize : UInt32) (ops : List Op) :
    ((configured back printStats targetSize maxSize).run B ops).eventBufferSize =
        .ofNat ((configured back printStats targetSize maxSize).run B ops).bufferedBytes ∧
      ∀ call ∈ (configured back printStats targetSize maxSize).runFlushes B ops,
        Takes call.unwind.eventBufferSize call.unwind.bufferedBytes
          (call.unwind.flushSubtractions B call.desiredBufferSize)
          (call.result B).eventBufferSize (call.result B).bufferedBytes ∧
        (call.unwind.bufferedBytes < 2 ^ 32 →
          ∀ x ∈ call.unwind.flushSubtractions B call.desiredBufferSize, x.subtrahend ≤ x.minuend) := by
  have hstart := configured_balanced back printStats targetSize maxSize
  refine ⟨run_balanced ops hstart, fun call hcall => ?_⟩
  have htakes := flushEventBuffer_takes (B := B) call.unwind call.desiredBufferSize
  refine ⟨htakes, fun hfits => htakes.subtrahend_le ?_⟩
  rw [show call.unwind.eventBufferSize = _ from runFlushes_balanced ops hstart call hcall]
  exact Nat.le_of_eq (UInt32.toNat_ofNat_of_lt' hfits).symm

/-- A sample and an mmap, taken off by the flush for a second sample. -/
theorem run_accounts_full :
    ((configured () true 16 64).runFlushes discard [.sample (sampleAt 3), .registerElf { header := { size := 8 } },
        .sample (sampleAt 4)]).map (fun call => call.unwind.flushSubtractions discard call.desiredBufferSize) =
        [[⟨24, 8⟩, ⟨16, 8⟩]] ∧
      ∀ call ∈ (configured () true 16 64).runFlushes discard [.sample (sampleAt 3),
          .registerElf { header := { size := 8 } }, .sample (sampleAt 4)],
        ∀ x ∈ call.unwind.flushSubtractions discard call.desiredBufferSize, x.subtrahend ≤ x.minuend := by
  refine ⟨by decide, fun call hcall => ((run_accounts discard () true 16 64 _).2 call hcall).2 ?_⟩
  revert call
  decide

end PerfUnwind

end PerfParser
