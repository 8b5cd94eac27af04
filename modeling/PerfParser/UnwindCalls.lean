import PerfParser.UnwindDrain
/-!
# UnwindCalls — what a flush does to the back end

A flush reaches the back end through its calls only, all with the registry it started with, and the task events it
sends are those of the buffer.  So what these calls keep, a flush keeps (`back_flushEventBuffer`).
-/
namespace PerfParser

/-- A call that a flush may make, with these task events in the buffer. -/
def Call.Flushed (tasks : List TaskEvent) : Call → Prop
  | sendTaskEvent taskEvent => taskEvent ∈ tasks
  | sendAttributes .. | sendEventFormat .. | sendFeatures .. => False
  | registerElf .. | initAfterFork .. | dropSymbolTable .. | analyze .. | sendTimeOrderViolation .. => True

namespace PerfUnwind

variable {σ : Type} {B : Backend σ}

theorem registry_of_frame {u v : PerfUnwind σ} (h : u.frame = v.frame) : u.registry = v.registry :=
  (Settings.mk.inj (settings_of_frame h)).1

section

variable {P : σ → Prop} {r : Registry} {tasks : List TaskEvent}
  (hP : ∀ b x, Call.Flushed tasks x → P b → P (B.exec r b x))

include hP

theorem back_call {u : PerfUnwind σ} (hr : u.registry = r) {x : Call} (hx : x.Flushed tasks) (h : P u.back) :
    P (u.call B x).back := by
  subst hr
  exact hP u.back x hx h

theorem back_callUnlessStats {u : PerfUnwind σ} (hr : u.registry = r) {x : Call} (hx : x.Flushed tasks) (h : P u.back) :
    P (u.callUnlessStats B x).back := by
  unfold callUnlessStats
  split
  · exact h
  · exact back_call hP hr hx h

theorem back_forwardMmapBuffer (t : UInt64) : ∀ {u : PerfUnwind σ} (mmaps : List PerfRecordMmap), u.registry = r →
    P u.back → P (forwardMmapBuffer B t u mmaps).1.back
  | u, [], _, h => h
  | u, m :: mmaps, hr, h => by
    unfold forwardMmapBuffer
    split
    · have hregistry : (u.forwardMmap B m).registry = r := (registry_of_frame (frame_forwardMmap u m)).trans hr
      exact back_forwardMmapBuffer t mmaps hregistry (back_callUnlessStats (B := B) hP hr trivial h)
    · exact h

theorem back_processTask {u : PerfUnwind σ} (hr : u.registry = r) (mmaps : List PerfRecordMmap) {e : TaskEvent}
    (he : e ∈ tasks) (h : P u.back) : P (u.processTask B mmaps e).1.back := by
  have hbefore : P (u.beforeSend B mmaps e).1.back := by
    unfold beforeSend
    cases e.forkedFrom with
    | some parentPid =>
      have hregistry := (registry_of_frame (frame_forwardMmapBuffer (B := B) e.time u mmaps)).trans hr
      exact back_call hP hregistry (x := .initAfterFork e parentPid) trivial
        (back_forwardMmapBuffer hP e.time mmaps hr h)
    | none =>
      dsimp only
      split
      · exact back_call hP hr (x := .dropSymbolTable e) trivial h
      · exact h
  cases hs : u.stats.enabled with
  | true => simpa [processTask, hs] using h
  | false =>
    rw [processTask_of_stats hs]
    exact back_call hP ((registry_of_frame (frame_beforeSend u mmaps e)).trans hr) (x := .sendTaskEvent e) he hbefore

theorem back_processTasks (t : UInt64) : ∀ {u : PerfUnwind σ} (mmaps : List PerfRecordMmap) {waiting : List TaskEvent},
    u.registry = r → waiting ⊆ tasks → P u.back → P (processTasks B t u mmaps waiting).1.back
  | u, mmaps, [], _, _, h => h
  | u, mmaps, e :: waiting, hr, hsub, h => by
    obtain ⟨he, hsub⟩ := List.cons_subset.1 hsub
    unfold processTasks
    split
    · have hregistry : (u.processTask B mmaps e).1.registry = r :=
        (registry_of_frame (frame_processTask u mmaps e)).trans hr
      have hback := back_processTask hP hr mmaps he h
      exact back_processTasks t (u := (u.processTask B mmaps e).1) _ hregistry hsub hback
    · exact h

theorem back_processSample {f : Flush σ} (hr : f.unwind.registry = r) (hsub : f.taskEventIt ⊆ tasks)
    (s : PerfRecordSample) (h : P f.unwind.back) : P (processSample B f s).unwind.back := by
  have htasks := back_processTasks hP s.time f.mmapIt hr hsub h
  have hregistry := (registry_of_frame (frame_processTasks (B := B) s.time f.unwind f.mmapIt f.taskEventIt)).trans hr
  unfold processSample
  generalize processTasks B s.time f.unwind f.mmapIt f.taskEventIt = p at htasks hregistry ⊢
  obtain ⟨u, mmaps, waiting⟩ := p
  have hforward := back_forwardMmapBuffer hP s.time mmaps hregistry htasks
  have hregistry' := (registry_of_frame (frame_forwardMmapBuffer (B := B) s.time u mmaps)).trans hregistry
  exact back_callUnlessStats hP hregistry' (x := .analyze s) trivial hforward

theorem back_sampleLoop (desired : UInt32) : ∀ {f : Flush σ} (samples : List PerfRecordSample),
    f.unwind.registry = r → f.taskEventIt ⊆ tasks → P f.unwind.back →
    P (sampleLoop B desired f samples).1.unwind.back
  | f, [], _, _, h => h
  | f, s :: samples, hr, hsub, h => by
    have hgo : ∀ g : Flush σ, g.unwind.registry = r → g.taskEventIt ⊆ tasks → P g.unwind.back →
        P (sampleLoop B desired (processSample B g s) samples).1.unwind.back := fun g hr hsub h =>
      back_sampleLoop desired samples ((registry_of_frame (frame_processSample g s)).trans hr)
        (List.Subset.trans (processSample_suffix (B := B) g s).2.subset hsub) (back_processSample hP hr hsub s h)
    unfold sampleLoop
    split
    · split
      · exact hgo { f with violatesTimeOrder := true } hr hsub h
      · split
        · exact back_forwardMmapBuffer hP _ f.mmapIt hr h
        · exact hgo { f with unwind := { f.unwind with lastFlushMaxTime := s.time } } hr hsub h
    · exact h

theorem back_trailingLoop (desired : UInt32) : ∀ {u : PerfUnwind σ} {waiting : List TaskEvent}, u.registry = r →
    waiting ⊆ tasks → P u.back → P (trailingLoop B desired u waiting).1.back
  | u, [], _, _, h => h
  | u, e :: waiting, hr, hsub, h => by
    obtain ⟨he, hsub⟩ := List.cons_subset.1 hsub
    unfold trailingLoop
    split
    · exact back_trailingLoop desired
        (u := { u.callUnlessStats B (.sendTaskEvent e) with
          eventBufferSize := (u.callUnlessStats B (.sendTaskEvent e)).eventBufferSize - e.size })
        ((registry_of_frame (frame_callUnlessStats u _)).trans hr) hsub
        (back_callUnlessStats hP hr (x := .sendTaskEvent e) he h)
    · exact h

theorem back_startFlush {u : PerfUnwind σ} (hstats : u.stats.enabled = false) (hr : u.registry = r) (h : P u.back) :
    P (u.startFlush B).unwind.back := by
  rw [startFlush_of_stats hstats]
  cases u.sortBuffers.violatingMmap with
  | none => exact h
  | some m => exact back_call hP hr (x := .sendTimeOrderViolation m.time u.lastFlushMaxTime) trivial h

end

@[simp] theorem registry_setMaxEventBufferSize (u : PerfUnwind σ) (size : UInt32) :
    (u.setMaxEventBufferSize size).registry = u.registry := by
  unfold setMaxEventBufferSize
  split <;> rfl

@[simp] theorem registry_setTargetEventBufferSize (u : PerfUnwind σ) (size : UInt32) :
    (u.setTargetEventBufferSize size).registry = u.registry := by
  unfold setTargetEventBufferSize
  dsimp only
  split
  · exact registry_setMaxEventBufferSize _ _
  · rfl

theorem registry_growBuffer (u : PerfUnwind σ) (size : UInt32) : (u.growBuffer size).registry = u.registry :=
  registry_setTargetEventBufferSize _ _

theorem registry_flushEventBuffer {u : PerfUnwind σ} (h : u.stats.enabled = false) (desired : UInt32) :
    (u.flushEventBuffer B desired).registry = u.registry := by
  have hloops : (flushLoops B (u.startFlush B) desired).1.registry = u.registry :=
    (Settings.mk.inj (flushLoops_steps (B := B) (startFlush_ready h) desired).2).1.trans
      (registry_of_frame (frame_startFlush h))
  unfold flushEventBuffer
  dsimp only
  split
  · rw [registry_growBuffer, hloops]
  · exact hloops

/-- **What its calls keep, a flush keeps**, and the task events it leaves are some of those before. -/
theorem back_flushEventBuffer {P : σ → Prop} {u : PerfUnwind σ}
    (hP : ∀ b x, Call.Flushed u.taskEventsBuffer x → P b → P (B.exec u.registry b x))
    (h : u.stats.enabled = false) (desired : UInt32) (hback : P u.back) :
    P (u.flushEventBuffer B desired).back ∧ (u.flushEventBuffer B desired).taskEventsBuffer ⊆ u.taskEventsBuffer := by
  have hcore := flushEventBuffer_core (B := B) u desired
  rw [show (u.flushEventBuffer B desired).back = (u.flushEventBuffer B desired).core.back from rfl,
    show (u.flushEventBuffer B desired).taskEventsBuffer = (u.flushEventBuffer B desired).core.tasks from rfl, hcore]
  have hregistry := registry_of_frame (frame_startFlush (B := B) h)
  have hsub : (u.startFlush B).taskEventIt ⊆ u.taskEventsBuffer := by
    rw [(startFlush_sorted u).tasks]
    exact (StableSort.sortBy_perm _ _).subset
  have hstart := back_startFlush hP h rfl hback
  have hsamples := back_sampleLoop hP desired (u.startFlush B).unwind.sampleBuffer hregistry hsub hstart
  have hsettings := settings_sampleLoop (B := B) desired (u.startFlush B) (u.startFlush B).unwind.sampleBuffer
  have hsuffix := (sampleLoop_suffix (B := B) desired (u.startFlush B) (u.startFlush B).unwind.sampleBuffer).2.2
  have hstats := (startFlush_ready (B := B) h).stats
  unfold flushLoops
  generalize sampleLoop B desired (u.startFlush B) (u.startFlush B).unwind.sampleBuffer = g at *
  obtain ⟨g, samples⟩ := g
  have hregistry' : (g.leave desired).registry = u.registry := (Settings.mk.inj hsettings).1.trans hregistry
  have hwaiting := List.Subset.trans hsuffix.subset hsub
  have htrailing := back_trailingLoop hP desired hregistry' hwaiting hsamples
  have hleft := (trailingLoop_suffix (B := B) desired (g.leave desired) g.taskEventIt).subset
  have hframe := frame_trailingLoop (B := B) desired (g.leave desired) g.taskEventIt
  dsimp only
  rw [eraseUntil_of_stats (by
    rw [stats_of_frame hframe, show (g.leave desired).stats = g.unwind.stats from rfl, stats_of_settings hsettings,
      hstats])]
  exact ⟨htrailing, List.Subset.trans hleft hwaiting⟩

end PerfUnwind

end PerfParser
