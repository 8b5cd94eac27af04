import PerfParser.UnwindTimes
import PerfParser.UnwindTrailing
/-!
# StatsMode — what is buffered in stats mode (`PerfUnwind::flushEventBuffer`)

In stats mode the unwinder calls nobody, but buffers and flushes like one that does: what is in its buffers, and how
large they may get, depends on neither the mode nor the back end (`run_bare`).  A flush is a pass through the sorted
buffers (`Pass`), which forks make no difference to: the mmaps before one come before the next sample anyway.
-/
namespace PerfParser

open StableSort (sortBy)

/-! ## What the buffering depends on -/

/-- A task event without the id of its string, which is the back end's. -/
def TaskEvent.anonymous (e : TaskEvent) : TaskEvent :=
  match e.type with
  | .command _ => { e with type := .command (-1) }
  | _ => e

theorem TaskEvent.time_anonymous (e : TaskEvent) : e.anonymous.time = e.time := by
  unfold anonymous
  split <;> rfl

theorem TaskEvent.anonymous_anonymous (e : TaskEvent) : e.anonymous.anonymous = e.anonymous := by
  obtain ⟨pid, tid, time, cpu, type⟩ := e
  cases type <;> rfl

namespace PerfUnwind

variable {σ τ : Type} {B : Backend σ}

/-- The unwinder with nothing behind it, and no statistics. -/
def bare (u : PerfUnwind σ) : PerfUnwind Unit where
  sampleBuffer := u.sampleBuffer
  mmapBuffer := u.mmapBuffer
  taskEventsBuffer := u.taskEventsBuffer.map TaskEvent.anonymous
  registry := u.registry
  lastEventBufferSize := u.lastEventBufferSize
  maxEventBufferSize := u.maxEventBufferSize
  targetEventBufferSize := u.targetEventBufferSize
  eventBufferSize := u.eventBufferSize
  timeOrderViolations := u.timeOrderViolations
  lastFlushMaxTime := u.lastFlushMaxTime
  back := ()

theorem bare_bare (u : PerfUnwind σ) : u.bare.bare = u.bare := by
  have htasks : (u.taskEventsBuffer.map TaskEvent.anonymous).map TaskEvent.anonymous =
      u.taskEventsBuffer.map TaskEvent.anonymous := by
    rw [List.map_map]
    exact List.map_congr_left fun e _ => e.anonymous_anonymous
  exact congrArg (fun tasks => { u.bare with taskEventsBuffer := tasks }) htasks

/-! ## A pass through sorted buffers -/

end PerfUnwind

/-- What a flush has not reached yet, and where it is. -/
structure Pass where
  last : UInt64
  samples : List PerfRecordSample
  mmaps : List PerfRecordMmap
  tasks : List TaskEvent
  violates : Bool

namespace Pass

def size (p : Pass) : UInt32 := .ofNat (bufferedBytes p.samples p.mmaps p.tasks)

/-- The mmaps and task events up to a time are passed. -/
def upTo (p : Pass) (time : UInt64) : Pass :=
  { p with
    mmaps := p.mmaps.dropWhile fun m => m.time ≤ time
    tasks := p.tasks.dropWhile fun e => e.time ≤ time }

/-- The samples, with the mmaps and task events before them. -/
def passSamples (desired : UInt32) (p : Pass) : List PerfRecordSample → Pass
  | [] => { p with samples := [] }
  | s :: samples =>
    let p := { p with samples := s :: samples }
    if p.size > desired then
      if s.time < p.last then passSamples desired { p.upTo s.time with violates := true } samples
      else if p.violates then { p with mmaps := p.mmaps.dropWhile fun m => m.time ≤ p.last }
      else passSamples desired { p.upTo s.time with last := s.time } samples
    else p

theorem passSamples_cons (desired : UInt32) {p : Pass} {s : PerfRecordSample} {samples : List PerfRecordSample}
    (h : p.samples = s :: samples) : p.passSamples desired (s :: samples) =
      if p.size > desired then
        if s.time < p.last then passSamples desired { p.upTo s.time with violates := true } samples
        else if p.violates then { p with mmaps := p.mmaps.dropWhile fun m => m.time ≤ p.last }
        else passSamples desired { p.upTo s.time with last := s.time } samples
      else p := by
  obtain ⟨last, samples', mmaps, tasks, violates⟩ := p
  obtain rfl : samples' = s :: samples := h
  rfl

/-- The samples of the pass are those that are given. -/
theorem passSamples_samples (desired : UInt32) (p : Pass) (samples samples' : List PerfRecordSample) :
    passSamples desired { p with samples := samples' } samples = p.passSamples desired samples := by
  cases samples <;> rfl

/-- The task events that are left after the samples. -/
def passTasks (desired : UInt32) (p : Pass) : List TaskEvent → Pass
  | [] => { p with tasks := [] }
  | e :: tasks =>
    let p := { p with tasks := e :: tasks }
    if p.size > desired then passTasks desired p tasks else p

def run (desired : UInt32) (p : Pass) : Pass :=
  let p := passSamples desired p p.samples
  passTasks desired p p.tasks

end Pass

namespace PerfUnwind

variable {σ τ : Type} {B : Backend σ}

/-- Where a flush is. -/
def Flush.pass (f : Flush σ) (samples : List PerfRecordSample) : Pass where
  last := f.unwind.lastFlushMaxTime
  samples := samples
  mmaps := f.mmapIt
  tasks := f.taskEventIt.map TaskEvent.anonymous
  violates := f.violatesTimeOrder

/-! Mmaps and task events are passed up to a time. -/

theorem dropWhile_dropWhile {α : Type} {p q : α → Bool} (h : ∀ a, q a = true → p a = true) :
    ∀ l : List α, (l.dropWhile q).dropWhile p = l.dropWhile p
  | [] => rfl
  | a :: l => by
    rw [List.dropWhile_cons]
    split
    · rename_i hq
      rw [dropWhile_dropWhile h l, List.dropWhile_cons_of_pos (h a hq)]
    · rfl

theorem forwardMmapBuffer_snd (t : UInt64) : ∀ (u : PerfUnwind σ) (mmaps : List PerfRecordMmap),
    (forwardMmapBuffer B t u mmaps).2 = mmaps.dropWhile fun m => m.time ≤ t
  | u, [] => rfl
  | u, m :: mmaps => by
    unfold forwardMmapBuffer
    split
    · rename_i hm
      rw [forwardMmapBuffer_snd t _ mmaps, List.dropWhile_cons, if_pos (decide_eq_true hm)]
    · rename_i hm
      rw [List.dropWhile_cons, if_neg (by simpa using hm)]

/-- A fork passes some mmaps, but none after the time that all are passed up to. -/
theorem processTask_mmaps {t : UInt64} (u : PerfUnwind σ) (mmaps : List PerfRecordMmap) {e : TaskEvent}
    (h : e.time ≤ t) : ((u.processTask B mmaps e).2.dropWhile fun m => m.time ≤ t) =
      mmaps.dropWhile fun m => m.time ≤ t := by
  cases hs : u.stats.enabled with
  | true => simp [processTask, hs]
  | false =>
    rw [processTask_of_stats hs]
    unfold beforeSend
    cases e.forkedFrom with
    | none => rfl
    | some parentPid =>
      rw [forwardMmapBuffer_snd]
      exact dropWhile_dropWhile (fun m hm => decide_eq_true (Std.le_trans (of_decide_eq_true hm) h)) mmaps

theorem processTasks_passes (t : UInt64) : ∀ (u : PerfUnwind σ) (mmaps : List PerfRecordMmap) (tasks : List TaskEvent),
    ((processTasks B t u mmaps tasks).2.1.dropWhile fun m => m.time ≤ t) = (mmaps.dropWhile fun m => m.time ≤ t) ∧
      (processTasks B t u mmaps tasks).2.2 = tasks.dropWhile fun e => e.time ≤ t
  | u, mmaps, [] => ⟨rfl, rfl⟩
  | u, mmaps, e :: tasks => by
    unfold processTasks
    split
    · rename_i he
      obtain ⟨hmmaps, htasks⟩ := processTasks_passes t (u.processTask B mmaps e).1 (u.processTask B mmaps e).2 tasks
      rw [List.dropWhile_cons, if_pos (decide_eq_true he)]
      exact ⟨hmmaps.trans (processTask_mmaps u mmaps he), htasks⟩
    · rename_i he
      rw [List.dropWhile_cons, if_neg (by simpa using he)]
      exact ⟨rfl, rfl⟩

theorem dropWhile_anonymous (t : UInt64) (tasks : List TaskEvent) :
    (tasks.dropWhile fun e => e.time ≤ t).map TaskEvent.anonymous =
      (tasks.map TaskEvent.anonymous).dropWhile fun e => e.time ≤ t := by
  rw [List.dropWhile_map]
  exact congrArg (fun p => (tasks.dropWhile p).map TaskEvent.anonymous)
    (funext fun e => by rw [Function.comp_apply, e.time_anonymous])

/-- **A sample is passed with the mmaps and task events before it**, whatever is called for them. -/
theorem pass_processSample (f : Flush σ) (s : PerfRecordSample) (samples : List PerfRecordSample) :
    (processSample B f s).pass samples = (f.pass samples).upTo s.time := by
  obtain ⟨hmmaps, htasks⟩ := processTasks_passes (B := B) s.time f.unwind f.mmapIt f.taskEventIt
  have hlast := lastFlushMaxTime_of_frame (frame_processSample (B := B) f s)
  have hmmapIt : (processSample B f s).mmapIt = f.mmapIt.dropWhile fun m => m.time ≤ s.time := by
    rw [← hmmaps]
    exact forwardMmapBuffer_snd ..
  have htaskIt : (processSample B f s).taskEventIt = f.taskEventIt.dropWhile fun e => e.time ≤ s.time := htasks
  unfold Flush.pass Pass.upTo
  rw [hlast, hmmapIt, htaskIt, dropWhile_anonymous]
  rfl

/-- The size of what a pass has not reached is the size that the unwinder has. -/
theorem size_pass {f : Flush σ} {samples : List PerfRecordSample}
    (h : f.unwind.Accounted samples f.mmapIt f.taskEventIt) : (f.pass samples).size = f.unwind.eventBufferSize := by
  have htasks : bytes TaskEvent.size (f.taskEventIt.map TaskEvent.anonymous) = bytes TaskEvent.size f.taskEventIt := by
    unfold bytes
    rw [List.map_map]
    rfl
  rw [h, Pass.size, Flush.pass, PerfParser.bufferedBytes, htasks]
  rfl

/-- **The loop over the samples passes them**, whatever is called for them. -/
theorem pass_sampleLoop (desired : UInt32) : ∀ (f : Flush σ) (samples : List PerfRecordSample),
    f.unwind.Accounted samples f.mmapIt f.taskEventIt →
    (sampleLoop B desired f samples).1.pass (sampleLoop B desired f samples).2 =
      (f.pass samples).passSamples desired samples
  | f, [], _ => rfl
  | f, s :: samples, h => by
    rw [Pass.passSamples_cons desired rfl, size_pass h]
    unfold sampleLoop
    split
    · by_cases hlate : s.time < f.unwind.lastFlushMaxTime
      · have hstep := processSample_accounted (B := B) (f := { f with violatesTimeOrder := true }) h
        rw [if_pos hlate, if_pos (show s.time < (f.pass (s :: samples)).last from hlate),
          pass_sampleLoop desired _ samples hstep, pass_processSample]
        exact (Pass.passSamples_samples desired
          ((Flush.pass { f with violatesTimeOrder := true } samples).upTo s.time) samples (s :: samples)).symm
      · rw [if_neg hlate, if_neg (show ¬s.time < (f.pass (s :: samples)).last from hlate)]
        by_cases hviolates : f.violatesTimeOrder = true
        · rw [if_pos hviolates, if_pos (show (f.pass (s :: samples)).violates = true from hviolates)]
          unfold Flush.pass
          dsimp only
          rw [forwardMmapBuffer_snd, lastFlushMaxTime_of_frame (frame_forwardMmapBuffer _ f.unwind f.mmapIt)]
        · have hstep := processSample_accounted (B := B)
            (f := { f with unwind := { f.unwind with lastFlushMaxTime := s.time } }) h
          rw [if_neg hviolates, if_neg (show ¬(f.pass (s :: samples)).violates = true from hviolates),
            pass_sampleLoop desired _ samples hstep, pass_processSample]
          exact (Pass.passSamples_samples desired ((Flush.pass
            { f with unwind := { f.unwind with lastFlushMaxTime := s.time } } samples).upTo s.time) samples
            (s :: samples)).symm
    · rfl

/-- **The loop after the samples passes task events**, whatever is called for them. -/
theorem pass_trailingLoop (desired : UInt32) (p : Pass) : ∀ (u : PerfUnwind σ) (tasks : List TaskEvent),
    u.Accounted p.samples p.mmaps tasks →
    p.passTasks desired (tasks.map TaskEvent.anonymous) =
      { p with tasks := (trailingLoop B desired u tasks).2.map TaskEvent.anonymous }
  | u, [], _ => rfl
  | u, e :: tasks, h => by
    have hsize : Pass.size { p with tasks := (e :: tasks).map TaskEvent.anonymous } = u.eventBufferSize :=
      size_pass (f := { unwind := u, mmapIt := p.mmaps, taskEventIt := e :: tasks, violatesTimeOrder := p.violates }) h
    have hrest : ({ u.callUnlessStats B (.sendTaskEvent e) with
        eventBufferSize := (u.callUnlessStats B (.sendTaskEvent e)).eventBufferSize - e.size } : PerfUnwind σ).Accounted
          p.samples p.mmaps tasks := by
      rw [Accounted, ← h.pop_task]
      exact congrArg (· - _) (eventBufferSize_callUnlessStats u _)
    rw [List.map_cons, Pass.passTasks, ← List.map_cons, hsize]
    unfold trailingLoop
    split
    · rw [← pass_trailingLoop desired p _ tasks hrest]
      cases tasks <;> rfl
    · rfl

/-! ## A flush -/

/-- What a flush is about to pass. -/
def startPass (u : PerfUnwind σ) : Pass where
  last := u.lastFlushMaxTime
  samples := sortBy (fun s : PerfRecordSample => s.time) u.sampleBuffer
  mmaps := sortBy (fun m : PerfRecordMmap => m.time) u.mmapBuffer
  tasks := sortBy TaskEvent.time (u.taskEventsBuffer.map TaskEvent.anonymous)
  violates := u.sortBuffers.violatingMmap.isSome

/-- The unwinder behind a pass. -/
def afterPass (u : PerfUnwind σ) (p : Pass) : PerfUnwind σ :=
  { u with
    sampleBuffer := p.samples
    mmapBuffer := p.mmaps
    taskEventsBuffer := p.tasks
    eventBufferSize := p.size
    lastFlushMaxTime := p.last }

theorem sortBy_anonymous (tasks : List TaskEvent) :
    (sortBy TaskEvent.time tasks).map TaskEvent.anonymous = sortBy TaskEvent.time (tasks.map TaskEvent.anonymous) := by
  refine List.map_insertionSort _ _ _ _ fun a _ b _ => ?_
  unfold StableSort.KeyLE
  rw [a.time_anonymous, b.time_anonymous]

theorem pass_startFlush (u : PerfUnwind σ) :
    (u.startFlush B).pass (u.startFlush B).unwind.sampleBuffer = u.startPass := by
  have hsorted := startFlush_sorted (B := B) u
  have hstart : (u.startFlush B).unwind.lastFlushMaxTime = u.lastFlushMaxTime ∧
      (u.startFlush B).violatesTimeOrder = u.sortBuffers.violatingMmap.isSome := by
    have hcount : u.sortBuffers.countViolations.lastFlushMaxTime = u.lastFlushMaxTime ∧
        u.sortBuffers.countViolations.violatingMmap = u.sortBuffers.violatingMmap := by
      unfold countViolations
      split <;> exact ⟨rfl, rfl⟩
    unfold startFlush
    dsimp only
    rw [← hcount.2]
    refine ⟨?_, rfl⟩
    cases u.sortBuffers.countViolations.violatingMmap <;> exact hcount.1
  unfold Flush.pass startPass
  rw [hsorted.samples, hsorted.mmaps, hsorted.tasks, hstart.1, hstart.2, sortBy_anonymous]

/-- The settings that a flush leaves alone: all but the statistics. -/
theorem bare_startFlush (u : PerfUnwind σ) (p : Pass) :
    (u.startFlush B).unwind.bare.afterPass p = u.bare.afterPass p := by
  have hcount : u.sortBuffers.countViolations.bare.afterPass p = u.bare.afterPass p := by
    unfold countViolations
    split <;> rfl
  rw [← hcount]
  unfold startFlush
  dsimp only
  cases u.sortBuffers.countViolations.violatingMmap <;> rfl

theorem bare_of_settings {u v : PerfUnwind σ} (h : u.settings = v.settings) (p : Pass) :
    u.bare.afterPass p = v.bare.afterPass p := by
  obtain ⟨hr, hl, hm, ht, hv, -⟩ := Settings.mk.inj h
  unfold bare afterPass
  rw [hr, hl, hm, ht, hv]

theorem bare_eraseUntil {f : Flush σ} {samples : List PerfRecordSample}
    (h : f.unwind.Accounted samples f.mmapIt f.taskEventIt) :
    (f.unwind.eraseUntil samples f.mmapIt f.taskEventIt).bare = f.unwind.bare.afterPass (f.pass samples) := by
  unfold afterPass
  rw [size_pass h]
  unfold eraseUntil countFlush
  dsimp only
  split <;> rfl

/-- **What a flush leaves** is what a pass does not reach. -/
theorem bare_flushLoops {u : PerfUnwind σ} (h : u.Balanced) (desired : UInt32) :
    (flushLoops B (u.startFlush B) desired).1.bare = u.bare.afterPass (u.startPass.run desired) ∧
      (flushLoops B (u.startFlush B) desired).2 = (u.startPass.run desired).violates := by
  have hstart := startFlush_accounted (B := B) h
  have hpass := pass_sampleLoop (B := B) desired (u.startFlush B) _ hstart
  have haccounted := sampleLoop_accounted (B := B) desired (u.startFlush B) _ hstart
  have hsettings := settings_sampleLoop (B := B) desired (u.startFlush B) (u.startFlush B).unwind.sampleBuffer
  rw [pass_startFlush, show (u.startFlush B).unwind.sampleBuffer = u.startPass.samples from
    congrArg Pass.samples (pass_startFlush (B := B) u)] at hpass
  rw [← bare_startFlush (B := B)]
  unfold flushLoops Pass.run
  rw [show (u.startFlush B).unwind.sampleBuffer = u.startPass.samples from
    congrArg Pass.samples (pass_startFlush (B := B) u)] at *
  rw [← hpass]
  generalize sampleLoop B desired (u.startFlush B) u.startPass.samples = r at *
  obtain ⟨g, left⟩ := r
  have htrailing := pass_trailingLoop (B := B) desired (g.pass left) (g.leave desired) g.taskEventIt haccounted
  have hleft := trailingLoop_accounted (B := B) desired (g.leave desired) g.taskEventIt
    (show (g.leave desired).Accounted left g.mmapIt g.taskEventIt from haccounted)
  have hframe := frame_trailingLoop (B := B) desired (g.leave desired) g.taskEventIt
  dsimp only
  rw [show (g.pass left).tasks = g.taskEventIt.map TaskEvent.anonymous from rfl, htrailing]
  generalize trailingLoop B desired (g.leave desired) g.taskEventIt = t at *
  refine ⟨?_, rfl⟩
  -- the state in which the loop over the task events ends
  let f : Flush σ := ⟨t.1, g.mmapIt, t.2, g.violatesTimeOrder⟩
  have hf : f.pass left = { g.pass left with tasks := t.2.map TaskEvent.anonymous } :=
    congrArg (fun last => { g.pass left with tasks := t.2.map TaskEvent.anonymous, last := last })
      (lastFlushMaxTime_of_frame hframe)
  rw [← hf, ← bare_of_settings ((settings_of_frame hframe).trans hsettings)]
  exact bare_eraseUntil (f := f) hleft

theorem startPass_bare (u : PerfUnwind σ) : u.bare.startPass = u.startPass :=
  congrArg (fun v : PerfUnwind Unit => { u.startPass with tasks := sortBy TaskEvent.time v.taskEventsBuffer })
    u.bare_bare

theorem balanced_bare {u : PerfUnwind σ} (h : u.Balanced) : u.bare.Balanced := by
  have htasks : bytes TaskEvent.size u.bare.taskEventsBuffer = bytes TaskEvent.size u.taskEventsBuffer := by
    unfold bytes bare
    rw [List.map_map]
    rfl
  unfold Balanced Accounted PerfParser.bufferedBytes at *
  rw [htasks]
  exact h

theorem bare_setMaxEventBufferSize (u : PerfUnwind σ) (size : UInt32) :
    (u.setMaxEventBufferSize size).bare = u.bare.setMaxEventBufferSize size := by
  unfold setMaxEventBufferSize
  rw [apply_ite bare]
  rfl

theorem bare_setTargetEventBufferSize (u : PerfUnwind σ) (size : UInt32) :
    (u.setTargetEventBufferSize size).bare = u.bare.setTargetEventBufferSize size := by
  unfold setTargetEventBufferSize
  dsimp only
  rw [apply_ite bare, bare_setMaxEventBufferSize]
  rfl

theorem bare_growBuffer (u : PerfUnwind σ) (size : UInt32) : (u.growBuffer size).bare = u.bare.growBuffer size :=
  bare_setTargetEventBufferSize _ _

/-- **A flush** grows the buffer behind a pass that violates the time order. -/
theorem bare_flushEventBuffer {u : PerfUnwind σ} (h : u.Balanced) (desired : UInt32) :
    (u.flushEventBuffer B desired).bare =
      if (u.startPass.run desired).violates then
        (u.bare.afterPass (u.startPass.run desired)).growBuffer u.eventBufferSize
      else u.bare.afterPass (u.startPass.run desired) := by
  obtain ⟨hloops, hviolates⟩ := bare_flushLoops (B := B) h desired
  rw [← hloops, ← hviolates]
  unfold flushEventBuffer
  rw [← bare_growBuffer, ← apply_ite bare]

/-! ## Operations

Each does to the buffers what it does with nothing behind the unwinder. -/

theorem flushEventBuffer_bare {u : PerfUnwind σ} (h : u.Balanced) (desired : UInt32) :
    (u.flushEventBuffer B desired).bare = (u.bare.flushEventBuffer discard desired).bare := by
  rw [bare_flushEventBuffer h, bare_flushEventBuffer (balanced_bare h), startPass_bare, bare_bare]
  rfl

end PerfUnwind

/-- An event without the id of its string. -/
def Event.anonymous : Event → Event
  | .task e => .task e.anonymous
  | event => event

namespace PerfUnwind

variable {σ τ : Type} {B : Backend σ}

theorem enqueue_bare (u : PerfUnwind σ) (event : Event) :
    (u.enqueue event).bare = (u.bare.enqueue event.anonymous).bare := by
  have hflat (ρ : Type) (v : PerfUnwind ρ) (e : Event) : (v.enqueue e).bare =
      { (v.append e).bare with eventBufferSize := v.eventBufferSize + e.size } := by
    unfold enqueue
    cases e <;> dsimp only <;> split <;> rfl
  have happend : (u.append event).bare = (u.bare.append event.anonymous).bare := by
    cases event with
    | sample s => exact (u.append (.sample s)).bare_bare.symm
    | mmap m => exact (u.append (.mmap m)).bare_bare.symm
    | task e =>
      have htasks : (u.taskEventsBuffer ++ [e]).map TaskEvent.anonymous =
          (u.bare.taskEventsBuffer ++ [e.anonymous]).map TaskEvent.anonymous := by
        rw [List.map_append, List.map_append, List.map_singleton, List.map_singleton, e.anonymous_anonymous]
        exact congrArg (fun v : PerfUnwind Unit => v.taskEventsBuffer ++ _) u.bare_bare.symm
      exact congrArg (fun tasks => { u.bare with taskEventsBuffer := tasks }) htasks
  rw [hflat, hflat, happend]
  cases event <;> rfl

theorem bufferEvent_bare {u : PerfUnwind σ} (h : u.Balanced) (event : Event) :
    (u.bufferEvent B event).bare = (u.bare.bufferEvent discard event.anonymous).bare := by
  have henqueue := enqueue_bare u event
  unfold bufferEvent
  dsimp only
  generalize hv : u.enqueue event = v at *
  generalize hw : u.bare.enqueue event.anonymous = w at *
  have hvb : v.Balanced := hv ▸ enqueue_balanced h event
  have hwb : w.Balanced := hw ▸ enqueue_balanced (balanced_bare h) event.anonymous
  rw [show v.targetEventBufferSize = w.targetEventBufferSize from
      congrArg (fun u : PerfUnwind Unit => u.targetEventBufferSize) henqueue,
    show v.eventBufferSize = w.eventBufferSize from congrArg (fun u : PerfUnwind Unit => u.eventBufferSize) henqueue]
  split
  · rw [flushEventBuffer_bare hvb, flushEventBuffer_bare hwb, henqueue]
  · exact henqueue

theorem finishedRound_bare {u : PerfUnwind σ} (h : u.Balanced) :
    (u.finishedRound B).bare = (u.bare.finishedRound discard).bare := by
  have hround (ρ : Type) (C : Backend ρ) (v : PerfUnwind ρ) (hv : v.Balanced) : (v.finishedRound C).bare =
      if v.targetEventBufferSize = 0 then (v.bare.flushEventBuffer discard (v.eventBufferSize / 2)).bare
      else if v.timeOrderViolations = 0 ∧ ¬v.hasTracePointAttributes then v.bare.setTargetEventBufferSize 0
      else v.bare := by
    unfold finishedRound
    cases v.stats.enabled with
    | false =>
      rw [← flushEventBuffer_bare hv, ← bare_setTargetEventBufferSize, ← apply_ite bare, ← apply_ite bare]
      rfl
    | true =>
      let w : PerfUnwind ρ := { v with stats := v.stats.finishedRound }
      have hwb : w.Balanced := hv
      rw [show v.bare = w.bare from rfl, ← flushEventBuffer_bare hwb, ← bare_setTargetEventBufferSize,
        ← apply_ite bare, ← apply_ite bare]
      rfl
  rw [hround σ B u h, hround Unit discard u.bare (balanced_bare h), bare_bare]
  rfl

theorem finalize_bare {u : PerfUnwind σ} (h : u.Balanced) : (u.finalize B).bare = (u.bare.finalize discard).bare := by
  unfold finalize
  rw [flushEventBuffer_bare (finishedRound_balanced h), flushEventBuffer_bare (finishedRound_balanced (balanced_bare h)),
    finishedRound_bare h]

theorem addAttributes_bare (u : PerfUnwind σ) (attributes : PerfEventAttributes) (name : QByteArray)
    (ids : List UInt64) :
    (u.addAttributes B attributes name ids).bare = (u.bare.addAttributes discard attributes name ids).bare := by
  -- trace points need the buffer that perf's rounds make unnecessary
  have hrevert (ρ : Type) (v : PerfUnwind ρ) :
      (if attributes.type = PerfEventAttributes.TYPE_TRACEPOINT ∧ v.targetEventBufferSize = 0 then
        v.revertTargetEventBufferSize else v).bare =
      if attributes.type = PerfEventAttributes.TYPE_TRACEPOINT ∧ v.targetEventBufferSize = 0 then
        v.bare.revertTargetEventBufferSize else v.bare := by
    rw [apply_ite bare, revertTargetEventBufferSize, bare_setTargetEventBufferSize]
    rfl
  have hbare := (hrevert σ u).trans ((congrArg (fun v : PerfUnwind Unit =>
    if attributes.type = PerfEventAttributes.TYPE_TRACEPOINT ∧ u.targetEventBufferSize = 0 then
      v.revertTargetEventBufferSize else v) u.bare_bare.symm).trans (hrevert Unit u.bare).symm)
  unfold addAttributes
  dsimp only
  rw [show u.bare.registry = u.registry from rfl]
  split
  · exact hbare
  · exact congrArg (fun v : PerfUnwind Unit => { v with registry :=
      { v.registry with
        attributes := v.registry.attributes ++ [attributes]
        attributeIds := ((ids ++ [0]).filter fun id => !u.registry.attributeIds.contains id).foldl
          (fun h id => h.insert id (Int32.ofNat v.registry.attributes.length)) v.registry.attributeIds } }) hbare

/-- What is folded over commutes where each step does. -/
theorem foldl_bare {α : Type} {f : PerfUnwind σ → α → PerfUnwind σ} {g : PerfUnwind Unit → α → PerfUnwind Unit}
    (hf : ∀ u a, (f u a).bare = (g u.bare a).bare) (hg : ∀ u a, (g u a).bare = (g u.bare a).bare) (l : List α)
    {u : PerfUnwind σ} {v : PerfUnwind Unit} (h : u.bare = v.bare) : (l.foldl f u).bare = (l.foldl g v).bare := by
  induction l generalizing u v with
  | nil => exact h
  | cons a l ih => exact ih (by rw [hf, hg v, h])

theorem tracing_bare (u : PerfUnwind σ) (tracingData : PerfTracingData) :
    (u.tracing B tracingData).bare = (u.bare.tracing discard tracingData).bare := by
  refine foldl_bare (fun u p => ?_) (fun u p => ?_) _ ?_
  · exact u.bare_bare.symm
  · exact u.bare_bare.symm
  · exact congrArg (fun v : PerfUnwind Unit => { v with registry := { u.registry with tracingData := tracingData } })
      u.bare_bare.symm

theorem bare_checkVersion (u : PerfUnwind σ) (version : QByteArray) :
    (u.checkVersion version).bare = u.bare.checkVersion version := by
  unfold checkVersion
  rw [apply_ite bare, bare_setTargetEventBufferSize]
  rfl

theorem features_bare (u : PerfUnwind σ) (features : PerfFeatures) :
    (u.features B features).bare = (u.bare.features discard features).bare := by
  have hattrs : (features.eventDescs.foldl (fun u desc => u.addAttributes B desc.attrs desc.name desc.ids)
      (u.tracing B features.tracingData)).bare =
        (features.eventDescs.foldl (fun u desc => u.addAttributes discard desc.attrs desc.name desc.ids)
          (u.bare.tracing discard features.tracingData)).bare :=
    foldl_bare (fun u desc => addAttributes_bare u desc.attrs desc.name desc.ids)
      (fun u desc => addAttributes_bare u desc.attrs desc.name desc.ids) _ (tracing_bare u features.tracingData)
  have hversion := congrArg (fun v : PerfUnwind Unit => v.checkVersion features.version) hattrs
  rw [← bare_checkVersion, ← bare_checkVersion] at hversion
  exact congrArg (fun v : PerfUnwind Unit => { v with registry := { v.registry with
    buildIds := features.buildIds.foldl (fun h (b : BuildId) => h.insert b.fileName b.id) v.registry.buildIds } }) hversion

/-- **An operation** does the same to what is buffered whatever is behind the unwinder, and in stats mode. -/
theorem apply_bare {u : PerfUnwind σ} (h : u.Balanced) (op : Op) :
    (u.apply B op).bare = (u.bare.apply discard op).bare := by
  cases op with
  | registerElf mmap => exact bufferEvent_bare h _
  | comm comm =>
    have hcomm := bufferEvent_bare (B := B) (u := (u.resolveString B comm.comm).1) h (.task
      { pid := comm.pid, tid := comm.tid, time := comm.time, cpu := comm.cpu,
        type := .command (u.resolveString B comm.comm).2 })
    exact hcomm
  | lost lost => exact bufferEvent_bare h _
  | sample sample => exact bufferEvent_bare h _
  | fork fork => exact bufferEvent_bare h _
  | exit exit => exact bufferEvent_bare h _
  | contextSwitch contextSwitch => exact bufferEvent_bare h _
  | finishedRound => exact finishedRound_bare h
  | attr attr => exact addAttributes_bare u attr.attr attr.attr.name attr.ids
  | features features => exact features_bare u features
  | tracing tracingData => exact tracing_bare u tracingData
  | setMaxEventBufferSize size =>
    rw [show u.bare.apply discard (.setMaxEventBufferSize size) = u.bare.setMaxEventBufferSize size from rfl,
      ← bare_setMaxEventBufferSize, bare_bare]
    rfl
  | setTargetEventBufferSize size =>
    rw [show u.bare.apply discard (.setTargetEventBufferSize size) = u.bare.setTargetEventBufferSize size from rfl,
      ← bare_setTargetEventBufferSize, bare_bare]
    rfl
  | finalize => exact finalize_bare h

/-- **What is buffered in a run** depends on neither the mode nor what is behind the unwinder. -/
theorem run_bare {C : Backend τ} (ops : List Op) {u : PerfUnwind σ} {v : PerfUnwind τ} (hu : u.Balanced)
    (hv : v.Balanced) (h : u.bare = v.bare) : (u.run B ops).bare = (v.run C ops).bare := by
  induction ops using List.reverseRecOn with
  | nil => exact h
  | append_singleton ops op ih =>
    rw [run, run, List.foldl_concat, List.foldl_concat, ← run, ← run, apply_bare (run_balanced ops hu),
      apply_bare (run_balanced ops hv), ih]

theorem bare_configured (back : σ) (printStats : Bool) (targetSize maxSize : UInt32) :
    (configured back printStats targetSize maxSize).bare = configured () false targetSize maxSize := by
  unfold configured
  rw [bare_setMaxEventBufferSize, bare_setTargetEventBufferSize]
  rfl

/-- **Stats mode buffers and flushes like the unwinder that sends**, whatever that sends to. -/
theorem run_buffered {C : Backend τ} (back : σ) (back' : τ) (printStats printStats' : Bool)
    (targetSize maxSize : UInt32) (ops : List Op) :
    ((configured back printStats targetSize maxSize).run B ops).bare =
      ((configured back' printStats' targetSize maxSize).run C ops).bare :=
  run_bare ops (configured_balanced ..) (configured_balanced ..) ((bare_configured ..).trans (bare_configured ..).symm)

end PerfUnwind

end PerfParser
