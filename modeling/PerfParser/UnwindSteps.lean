import PerfParser.Unwind
import Mathlib.Logic.Relation
/-!
# UnwindSteps — a flush as a sequence of small steps

`Core` is what the order of the events depends on: the three buffers, `m_lastFlushMaxTime`, the back end and the trace.
`Step` is everything that ever happens to it, one event at a time, with what holds there: the loops of `flushEventBuffer`
only take these steps (`flushEventBuffer_steps`), and every operation is made of events buffered, flushes and calls that
concern no event (`apply_moves`).  The invariants of runs are inductions over the steps.
-/
namespace PerfParser

open StableSort (sortBy)
open Relation (ReflTransGen)

/-- A call that concerns no buffered event. -/
def Call.isNote : Call → Bool
  | sendTimeOrderViolation .. | sendAttributes .. | sendEventFormat .. | sendFeatures .. => true
  | _ => false

/-- The task events that the loop after the samples sends. -/
def due (desiredBufferSize : UInt32) : UInt32 → List TaskEvent → List TaskEvent
  | _, [] => []
  | size, e :: tasks => if size > desiredBufferSize then e :: due desiredBufferSize (size - e.size) tasks else []

structure Core (σ : Type) where
  samples : List PerfRecordSample
  mmaps : List PerfRecordMmap
  tasks : List TaskEvent
  last : UInt64
  back : σ
  trace : List (Entry σ)

namespace Core

variable {σ : Type} (B : Backend σ)

def arrive (c : Core σ) (event : Event) : Core σ :=
  let c := { c with trace := c.trace ++ [Entry.arrived event] }
  match event with
  | .sample s => { c with samples := c.samples ++ [s] }
  | .mmap m => { c with mmaps := c.mmaps ++ [m] }
  | .task e => { c with tasks := c.tasks ++ [e] }

def sort (c : Core σ) : Core σ :=
  { c with
    mmaps := sortBy (fun m : PerfRecordMmap => m.time) c.mmaps
    samples := sortBy (fun s : PerfRecordSample => s.time) c.samples
    tasks := sortBy (fun e : TaskEvent => e.time) c.tasks }

def call (r : Registry) (x : Call) (c : Core σ) : Core σ :=
  { c with back := B.exec r c.back x, trace := c.trace ++ [.call c.last c.back x] }

/-- One step of a flush or of a call that buffers nothing.  `late` allows what happens only in a flush that violates the
time order. -/
inductive Step (late : Bool) : Core σ → Core σ → Prop
  | sort (c : Core σ) : Step late c c.sort
  | note (c : Core σ) (r : Registry) (x : Call) (hx : x.isNote = true) : Step late c (c.call B r x)
  | resolve (c : Core σ) (string : QByteArray) : Step late c { c with back := (B.resolveString c.back string).1 }
  | advance (c : Core σ) (s : PerfRecordSample) (hs : s ∈ c.samples) (hlast : c.last ≤ s.time) :
      Step late c { c with last := s.time }
  | forward (c : Core σ) (r : Registry) (m : PerfRecordMmap) (ms : List PerfRecordMmap) (id : QByteArray)
      (hm : c.mmaps = m :: ms) (hlast : m.time ≤ c.last) (htasks : late = true ∨ ∀ e ∈ c.tasks, m.time ≤ e.time) :
      Step late c (({ c with mmaps := ms } : Core σ).call B r (.registerElf m id))
  | forked (c : Core σ) (r r' : Registry) (e : TaskEvent) (es : List TaskEvent) (parentPid : Int32)
      (he : c.tasks = e :: es) (hf : e.forkedFrom = some parentPid) (hlast : e.time ≤ c.last)
      (hmmaps : ∀ m ∈ c.mmaps, e.time < m.time) :
      Step late c ((({ c with tasks := es } : Core σ).call B r (.initAfterFork e parentPid)).call B r'
        (.sendTaskEvent e))
  | ended (c : Core σ) (r r' : Registry) (e : TaskEvent) (es : List TaskEvent) (he : c.tasks = e :: es)
      (hf : e.forkedFrom = none) (hd : e.endsProcess = true) (hlast : e.time ≤ c.last) :
      Step late c ((({ c with tasks := es } : Core σ).call B r (.dropSymbolTable e)).call B r' (.sendTaskEvent e))
  | plain (c : Core σ) (r : Registry) (e : TaskEvent) (es : List TaskEvent) (he : c.tasks = e :: es)
      (hf : e.forkedFrom = none) (hd : e.endsProcess = false) (hlast : e.time ≤ c.last) :
      Step late c (({ c with tasks := es } : Core σ).call B r (.sendTaskEvent e))
  | analyze (c : Core σ) (r : Registry) (s : PerfRecordSample) (ss : List PerfRecordSample) (hs : c.samples = s :: ss)
      (hlast : s.time ≤ c.last) (hnow : late = true ∨ s.time = c.last) (hmmaps : ∀ m ∈ c.mmaps, s.time < m.time)
      (htasks : ∀ e ∈ c.tasks, s.time < e.time) :
      Step late c (({ c with samples := ss } : Core σ).call B r (.analyze s))
  | leave (c : Core σ) (size desired : UInt32) :
      Step late c { c with trace := c.trace ++ [.trailing c.tasks size desired] }
  | trail (c : Core σ) (r : Registry) (e : TaskEvent) (es waiting : List TaskEvent) (size desired : UInt32)
      (he : c.tasks = e :: es) (hmark : .trailing waiting size desired ∈ c.trace) (hdue : e ∈ due desired size waiting) :
      Step late c (({ c with tasks := es } : Core σ).call B r (.sendTaskEvent e))

abbrev Steps (late : Bool) : Core σ → Core σ → Prop := ReflTransGen (Step B late)

/-- What happens in a run: a step, or an event that arrives between flushes. -/
inductive Move (late : Bool) : Core σ → Core σ → Prop
  | arrive (c : Core σ) (event : Event) : Move late c (c.arrive event)
  | step {c c' : Core σ} (h : Step B late c c') : Move late c c'

abbrev Moves (late : Bool) : Core σ → Core σ → Prop := ReflTransGen (Move B late)

variable {B}

theorem Step.late {c c' : Core σ} (h : Step B false c c') : Step B true c c' := by
  cases h with
  | sort => exact .sort c
  | note r x hx => exact .note c r x hx
  | resolve string => exact .resolve c string
  | advance s hs hlast => exact .advance c s hs hlast
  | forward r m ms id hm hlast htasks => exact .forward c r m ms id hm hlast (.inl rfl)
  | forked r r' e es parentPid he hf hlast hmmaps => exact .forked c r r' e es parentPid he hf hlast hmmaps
  | ended r r' e es he hf hd hlast => exact .ended c r r' e es he hf hd hlast
  | plain r e es he hf hd hlast => exact .plain c r e es he hf hd hlast
  | analyze r s ss hs hlast hnow hmmaps htasks => exact .analyze c r s ss hs hlast (.inl rfl) hmmaps htasks
  | leave size desired => exact .leave c size desired
  | trail r e es waiting size desired he hmark hdue => exact .trail c r e es waiting size desired he hmark hdue

theorem Steps.of_false {late : Bool} {c c' : Core σ} (h : Steps B false c c') : Steps B late c c' := by
  cases late with
  | true => exact ReflTransGen.mono (fun _ _ => Step.late) _ _ h
  | false => exact h

theorem Steps.late {late : Bool} {c c' : Core σ} (h : Steps B late c c') : Steps B true c c' := by
  cases late with
  | true => exact h
  | false => exact h.of_false

theorem Steps.moves {late : Bool} {c c' : Core σ} (h : Steps B late c c') : Moves B late c c' :=
  ReflTransGen.mono (fun _ _ => Move.step) _ _ h

/-- **An invariant of the moves is an invariant of runs.** -/
theorem Moves.preserve {late : Bool} {P : Core σ → Prop} (hmove : ∀ {c c'}, Move B late c c' → P c → P c')
    {c c' : Core σ} (h : Moves B late c c') (hc : P c) : P c' := by
  induction h with
  | refl => exact hc
  | tail _ h ih => exact hmove h ih

end Core

namespace PerfUnwind

open PerfParser.Core

variable {σ : Type} {B : Backend σ}

/-- The core while a flush runs: its iterators in place of the buffers. -/
def view (u : PerfUnwind σ) (samples : List PerfRecordSample) (mmaps : List PerfRecordMmap) (tasks : List TaskEvent) :
    Core σ where
  samples := samples
  mmaps := mmaps
  tasks := tasks
  last := u.lastFlushMaxTime
  back := u.back
  trace := u.trace

@[simp] theorem view_last (u : PerfUnwind σ) (samples : List PerfRecordSample) (mmaps : List PerfRecordMmap)
    (tasks : List TaskEvent) : (u.view samples mmaps tasks).last = u.lastFlushMaxTime := rfl

def core (u : PerfUnwind σ) : Core σ := u.view u.sampleBuffer u.mmapBuffer u.taskEventsBuffer

/-- What the stream and the user set, with the statistics. -/
structure Settings where
  registry : Registry
  lastEventBufferSize : UInt32
  maxEventBufferSize : UInt32
  targetEventBufferSize : UInt32
  timeOrderViolations : UInt32
  stats : Stats

def settings (u : PerfUnwind σ) : Settings where
  registry := u.registry
  lastEventBufferSize := u.lastEventBufferSize
  maxEventBufferSize := u.maxEventBufferSize
  targetEventBufferSize := u.targetEventBufferSize
  timeOrderViolations := u.timeOrderViolations
  stats := u.stats

/-- What forwarding mmaps and sending task events leave alone. -/
def frame (u : PerfUnwind σ) : Settings × UInt64 := (u.settings, u.lastFlushMaxTime)

@[simp] theorem frame_call (u : PerfUnwind σ) (x : Call) : (u.call B x).frame = u.frame := rfl

@[simp] theorem frame_callUnlessStats (u : PerfUnwind σ) (x : Call) : (u.callUnlessStats B x).frame = u.frame := by
  unfold callUnlessStats
  split <;> rfl

@[simp] theorem frame_eventBufferSize (u : PerfUnwind σ) (n : UInt32) :
    ({ u with eventBufferSize := n } : PerfUnwind σ).frame = u.frame := rfl

@[simp] theorem frame_trace (u : PerfUnwind σ) (t : List (Entry σ)) :
    ({ u with trace := t } : PerfUnwind σ).frame = u.frame := rfl

theorem lastFlushMaxTime_of_frame {u v : PerfUnwind σ} (h : u.frame = v.frame) :
    u.lastFlushMaxTime = v.lastFlushMaxTime := (Prod.mk.inj h).2

theorem settings_of_frame {u v : PerfUnwind σ} (h : u.frame = v.frame) : u.settings = v.settings := (Prod.mk.inj h).1

theorem stats_of_settings {u v : PerfUnwind σ} (h : u.settings = v.settings) : u.stats = v.stats :=
  (Settings.mk.inj h).2.2.2.2.2

theorem stats_of_frame {u v : PerfUnwind σ} (h : u.frame = v.frame) : u.stats = v.stats :=
  stats_of_settings (settings_of_frame h)

/-! ## The mmaps -/

@[simp] theorem frame_forwardMmap (u : PerfUnwind σ) (m : PerfRecordMmap) : (u.forwardMmap B m).frame = u.frame := by
  simp [forwardMmap]

theorem frame_forwardMmapBuffer (t : UInt64) : ∀ (u : PerfUnwind σ) (mmaps : List PerfRecordMmap),
    (forwardMmapBuffer B t u mmaps).1.frame = u.frame
  | u, [] => rfl
  | u, m :: mmaps => by
    unfold forwardMmapBuffer
    split
    · rw [frame_forwardMmapBuffer t, frame_forwardMmap]
    · rfl

theorem view_forwardMmap (u : PerfUnwind σ) (h : u.stats.enabled = false) (m : PerfRecordMmap)
    (samples : List PerfRecordSample) (mmaps : List PerfRecordMmap) (tasks : List TaskEvent) :
    (u.forwardMmap B m).view samples mmaps tasks = (u.view samples mmaps tasks).call B u.registry
      (.registerElf m ((u.registry.buildIds.find m.filename).getD [])) := by
  simp only [forwardMmap, callUnlessStats, h, Bool.false_eq_true, if_false]
  rfl

theorem forwardMmapBuffer_steps {late : Bool} {t : UInt64} (samples : List PerfRecordSample) (tasks : List TaskEvent)
    (htasks : late = true ∨ ∀ e ∈ tasks, t ≤ e.time) : ∀ (u : PerfUnwind σ) (mmaps : List PerfRecordMmap),
    u.stats.enabled = false → t ≤ u.lastFlushMaxTime →
    Steps B late (u.view samples mmaps tasks)
      ((forwardMmapBuffer B t u mmaps).1.view samples (forwardMmapBuffer B t u mmaps).2 tasks)
  | u, [], _, _ => .refl
  | u, m :: mmaps, hstats, hlast => by
    unfold forwardMmapBuffer
    split
    · rename_i hm
      have hstep : Step B late (u.view samples (m :: mmaps) tasks) _ :=
        .forward _ u.registry m mmaps ((u.registry.buildIds.find m.filename).getD []) rfl (Std.le_trans hm hlast)
          (htasks.imp_right (fun h e he => Std.le_trans hm (h e he)))
      have hview := view_forwardMmap (B := B) u hstats m samples mmaps tasks
      have hframe := frame_forwardMmap (B := B) u m
      refine .head hstep (?_ : ReflTransGen _ ((u.view samples mmaps tasks).call B _ _) _)
      rw [← hview]
      exact forwardMmapBuffer_steps samples tasks htasks _ mmaps (by rw [stats_of_frame hframe, hstats])
        (by rw [lastFlushMaxTime_of_frame hframe]; exact hlast)
    · exact .refl

theorem forwardMmapBuffer_suffix (t : UInt64) : ∀ (u : PerfUnwind σ) (mmaps : List PerfRecordMmap),
    (forwardMmapBuffer B t u mmaps).2 <:+ mmaps
  | u, [] => List.suffix_refl _
  | u, m :: mmaps => by
    unfold forwardMmapBuffer
    split
    · exact (forwardMmapBuffer_suffix t _ mmaps).trans (List.suffix_cons m mmaps)
    · exact List.suffix_refl _

/-- The order of the sorted buffers. -/
abbrev Sorted {α : Type} (time : α → UInt64) (l : List α) : Prop := l.Pairwise (StableSort.KeyLE time)

/-- **Everything up to the timestamp is forwarded.** -/
theorem lt_of_mem_forwardMmapBuffer {t : UInt64} : ∀ (u : PerfUnwind σ) {mmaps : List PerfRecordMmap},
    Sorted (fun m : PerfRecordMmap => m.time) mmaps → ∀ m ∈ (forwardMmapBuffer B t u mmaps).2, t < m.time
  | u, [], _, m, hm => by cases hm
  | u, m' :: mmaps, hs, m, hm => by
    unfold forwardMmapBuffer at hm
    split at hm
    · exact lt_of_mem_forwardMmapBuffer _ hs.of_cons m hm
    · rename_i hlt
      have hlt : t < m'.time := UInt64.not_le.1 hlt
      rcases List.mem_cons.1 hm with rfl | hm
      · exact hlt
      · exact Std.lt_of_lt_of_le hlt (List.rel_of_pairwise_cons hs hm)

/-! ## The task events before a sample -/

theorem frame_beforeSend (u : PerfUnwind σ) (mmaps : List PerfRecordMmap) (e : TaskEvent) :
    (u.beforeSend B mmaps e).1.frame = u.frame := by
  unfold beforeSend
  cases e.forkedFrom with
  | some parentPid => exact frame_forwardMmapBuffer (B := B) e.time u mmaps
  | none => by_cases hd : e.endsProcess = true <;> simp [hd]

theorem frame_processTask (u : PerfUnwind σ) (mmaps : List PerfRecordMmap) (e : TaskEvent) :
    (u.processTask B mmaps e).1.frame = u.frame := by
  unfold processTask
  by_cases hs : u.stats.enabled = true
  · simp [hs]
  · simp [hs, frame_beforeSend]

theorem processTask_of_stats {u : PerfUnwind σ} (h : u.stats.enabled = false) (mmaps : List PerfRecordMmap)
    (e : TaskEvent) : u.processTask B mmaps e =
      ({ (u.beforeSend B mmaps e).1.call B (.sendTaskEvent e) with
        eventBufferSize := (u.beforeSend B mmaps e).1.eventBufferSize - e.size }, (u.beforeSend B mmaps e).2) := by
  simp only [processTask, h, Bool.false_eq_true, if_false]
  rfl

theorem beforeSend_suffix (u : PerfUnwind σ) (mmaps : List PerfRecordMmap) (e : TaskEvent) :
    (u.beforeSend B mmaps e).2 <:+ mmaps := by
  unfold beforeSend
  cases e.forkedFrom with
  | some parentPid => exact forwardMmapBuffer_suffix e.time u mmaps
  | none => exact List.suffix_refl _

theorem processTask_suffix (u : PerfUnwind σ) (mmaps : List PerfRecordMmap) (e : TaskEvent) :
    (u.processTask B mmaps e).2 <:+ mmaps := by
  by_cases h : u.stats.enabled = true
  · simp [processTask, h]
  · rw [processTask_of_stats (Bool.eq_false_of_not_eq_true h)]
    exact beforeSend_suffix u mmaps e

/-- **A task event before a sample**: forked from the mmaps up to it, ended or plain. -/
theorem processTask_steps {late : Bool} (samples : List PerfRecordSample) {u : PerfUnwind σ}
    {mmaps : List PerfRecordMmap} {e : TaskEvent} {es : List TaskEvent} (hstats : u.stats.enabled = false)
    (hlast : e.time ≤ u.lastFlushMaxTime) (hmmaps : Sorted (fun m : PerfRecordMmap => m.time) mmaps)
    (htasks : Sorted TaskEvent.time (e :: es)) :
    Steps B late (u.view samples mmaps (e :: es))
      ((u.processTask B mmaps e).1.view samples (u.processTask B mmaps e).2 es) := by
  rw [processTask_of_stats hstats]
  unfold beforeSend
  cases hf : e.forkedFrom with
  | some parentPid =>
    have hforward : Steps B late (u.view samples mmaps (e :: es)) _ :=
      forwardMmapBuffer_steps samples _
        (.inr (fun e' he' => by
          rcases List.mem_cons.1 he' with rfl | he'
          · exact Std.le_refl _
          · exact List.rel_of_pairwise_cons htasks he')) u mmaps hstats hlast
    have hframe := frame_forwardMmapBuffer (B := B) e.time u mmaps
    refine hforward.tail (.forked _ _ _ e es parentPid rfl hf ?_ ?_)
    · rw [view_last, lastFlushMaxTime_of_frame hframe]
      exact hlast
    · exact lt_of_mem_forwardMmapBuffer u hmmaps
  | none =>
    cases hd : e.endsProcess with
    | true => exact .single (.ended _ _ _ e es rfl hf hd hlast)
    | false => exact .single (.plain _ _ e es rfl hf hd hlast)

theorem frame_processTasks (t : UInt64) : ∀ (u : PerfUnwind σ) (mmaps : List PerfRecordMmap) (tasks : List TaskEvent),
    (processTasks B t u mmaps tasks).1.frame = u.frame
  | u, mmaps, [] => rfl
  | u, mmaps, e :: es => by
    unfold processTasks
    split
    · rw [frame_processTasks t, frame_processTask]
    · rfl

theorem processTasks_suffix (t : UInt64) : ∀ (u : PerfUnwind σ) (mmaps : List PerfRecordMmap) (tasks : List TaskEvent),
    (processTasks B t u mmaps tasks).2.1 <:+ mmaps ∧ (processTasks B t u mmaps tasks).2.2 <:+ tasks
  | u, mmaps, [] => ⟨List.suffix_refl _, List.suffix_refl _⟩
  | u, mmaps, e :: es => by
    unfold processTasks
    split
    · obtain ⟨hm, ht⟩ := processTasks_suffix t (u.processTask B mmaps e).1 (u.processTask B mmaps e).2 es
      exact ⟨hm.trans (processTask_suffix u mmaps e), ht.trans (List.suffix_cons e es)⟩
    · exact ⟨List.suffix_refl _, List.suffix_refl _⟩

theorem lt_of_mem_processTasks {t : UInt64} : ∀ (u : PerfUnwind σ) (mmaps : List PerfRecordMmap)
    {tasks : List TaskEvent}, Sorted TaskEvent.time tasks → ∀ e ∈ (processTasks B t u mmaps tasks).2.2, t < e.time
  | u, mmaps, [], _, e, he => by cases he
  | u, mmaps, e' :: es, hs, e, he => by
    unfold processTasks at he
    split at he
    · exact lt_of_mem_processTasks _ _ hs.of_cons e he
    · rename_i hlt
      have hlt : t < e'.time := UInt64.not_le.1 hlt
      rcases List.mem_cons.1 he with rfl | he
      · exact hlt
      · exact Std.lt_of_lt_of_le hlt (List.rel_of_pairwise_cons hs he)

theorem processTasks_steps {late : Bool} {t : UInt64} (samples : List PerfRecordSample) :
    ∀ (u : PerfUnwind σ) (mmaps : List PerfRecordMmap) (tasks : List TaskEvent), u.stats.enabled = false →
      t ≤ u.lastFlushMaxTime → Sorted (fun m : PerfRecordMmap => m.time) mmaps → Sorted TaskEvent.time tasks →
      Steps B late (u.view samples mmaps tasks) ((processTasks B t u mmaps tasks).1.view samples
        (processTasks B t u mmaps tasks).2.1 (processTasks B t u mmaps tasks).2.2)
  | u, mmaps, [], _, _, _, _ => .refl
  | u, mmaps, e :: es, hstats, hlast, hmmaps, htasks => by
    unfold processTasks
    split
    · rename_i he
      have hframe := frame_processTask (B := B) u mmaps e
      refine (processTask_steps samples hstats (Std.le_trans he hlast) hmmaps htasks).trans ?_
      exact processTasks_steps samples _ _ es (by rw [stats_of_frame hframe, hstats])
        (by rw [lastFlushMaxTime_of_frame hframe]; exact hlast)
        (hmmaps.sublist (processTask_suffix u mmaps e).sublist) htasks.of_cons
    · exact .refl

/-! ## The samples -/

/-- The core of a running flush. -/
def Flush.view (f : Flush σ) (samples : List PerfRecordSample) : Core σ := f.unwind.view samples f.mmapIt f.taskEventIt

/-- The buffers a flush runs over are sorted, and it is not in stats mode. -/
structure Flush.Ready (f : Flush σ) : Prop where
  stats : f.unwind.stats.enabled = false
  mmaps : Sorted (fun m : PerfRecordMmap => m.time) f.mmapIt
  tasks : Sorted TaskEvent.time f.taskEventIt

theorem frame_processSample (f : Flush σ) (s : PerfRecordSample) :
    (processSample B f s).unwind.frame = f.unwind.frame := by
  simp only [processSample, frame_eventBufferSize, frame_callUnlessStats, frame_forwardMmapBuffer, frame_processTasks]

theorem processSample_ready {f : Flush σ} (h : f.Ready) (s : PerfRecordSample) : (processSample B f s).Ready where
  stats := by rw [stats_of_frame (frame_processSample f s), h.stats]
  mmaps := h.mmaps.sublist ((forwardMmapBuffer_suffix s.time _ _).trans
    (processTasks_suffix (B := B) s.time f.unwind f.mmapIt f.taskEventIt).1).sublist
  tasks := h.tasks.sublist (processTasks_suffix (B := B) s.time f.unwind f.mmapIt f.taskEventIt).2.sublist

theorem view_callUnlessStats {u : PerfUnwind σ} (h : u.stats.enabled = false) (x : Call)
    (samples : List PerfRecordSample) (mmaps : List PerfRecordMmap) (tasks : List TaskEvent) :
    (u.callUnlessStats B x).view samples mmaps tasks = (u.view samples mmaps tasks).call B u.registry x := by
  simp only [callUnlessStats, h, Bool.false_eq_true, if_false]
  rfl

/-- **A sample is analysed when the task events and the mmaps up to its time are through.** -/
theorem processSample_steps {late : Bool} {f : Flush σ} (h : f.Ready) {s : PerfRecordSample}
    {samples : List PerfRecordSample} (hlast : s.time ≤ f.unwind.lastFlushMaxTime)
    (hnow : late = true ∨ s.time = f.unwind.lastFlushMaxTime) :
    Steps B late (f.view (s :: samples)) ((processSample B f s).view samples) := by
  have htasks : Steps B late (f.view (s :: samples)) _ :=
    processTasks_steps (t := s.time) (s :: samples) f.unwind f.mmapIt f.taskEventIt h.stats hlast h.mmaps h.tasks
  have htframe := frame_processTasks (B := B) s.time f.unwind f.mmapIt f.taskEventIt
  have hsuffix := processTasks_suffix (B := B) s.time f.unwind f.mmapIt f.taskEventIt
  have hafter := lt_of_mem_processTasks (B := B) (t := s.time) f.unwind f.mmapIt h.tasks
  have hview : (processSample B f s).view samples = _ := view_callUnlessStats (B := B)
    (u := (forwardMmapBuffer B s.time (processTasks B s.time f.unwind f.mmapIt f.taskEventIt).1
      (processTasks B s.time f.unwind f.mmapIt f.taskEventIt).2.1).1)
    (by rw [stats_of_frame (frame_forwardMmapBuffer s.time _ _), stats_of_frame htframe, h.stats]) (.analyze s) samples
    (forwardMmapBuffer B s.time _ _).2 (processTasks B s.time f.unwind f.mmapIt f.taskEventIt).2.2
  rw [hview]
  generalize processTasks B s.time f.unwind f.mmapIt f.taskEventIt = p at *
  obtain ⟨u, mmaps, tasks⟩ := p
  have hl : u.lastFlushMaxTime = f.unwind.lastFlushMaxTime := lastFlushMaxTime_of_frame htframe
  have hmmaps : Sorted (fun m : PerfRecordMmap => m.time) mmaps := h.mmaps.sublist hsuffix.1.sublist
  have hforward : Steps B late (u.view (s :: samples) mmaps tasks) _ :=
    forwardMmapBuffer_steps (s :: samples) _ (.inr (fun e he => Std.le_of_lt (hafter e he))) u mmaps
      (by rw [stats_of_frame htframe, h.stats]) (by rw [hl]; exact hlast)
  have hl' : (forwardMmapBuffer B s.time u mmaps).1.lastFlushMaxTime = f.unwind.lastFlushMaxTime := by
    rw [lastFlushMaxTime_of_frame (frame_forwardMmapBuffer s.time u mmaps), hl]
  refine (htasks.trans hforward).tail (.analyze _ _ s samples rfl ?_ ?_ (lt_of_mem_forwardMmapBuffer u hmmaps) hafter)
  · rw [view_last, hl']
    exact hlast
  · rw [view_last, hl']
    exact hnow

theorem violates_sampleLoop (desired : UInt32) : ∀ (f : Flush σ) (samples : List PerfRecordSample),
    f.violatesTimeOrder = true → (sampleLoop B desired f samples).1.violatesTimeOrder = true
  | f, [], h => h
  | f, s :: samples, h => by
    unfold sampleLoop
    split
    · split
      · exact violates_sampleLoop desired _ samples rfl
      · simp [h]
    · exact h

/-- A sample loop that finds the first violation found a sample before `m_lastFlushMaxTime`. -/
theorem lt_of_violates_sampleLoop (desired : UInt32) : ∀ (f : Flush σ) {samples : List PerfRecordSample},
    Sorted (fun s : PerfRecordSample => s.time) samples → f.violatesTimeOrder = false →
    (sampleLoop B desired f samples).1.violatesTimeOrder = true → ∃ s ∈ samples, s.time < f.unwind.lastFlushMaxTime
  | f, [], _, hf, h => by
    rw [sampleLoop, hf] at h
    cases h
  | f, s :: samples, hs, hf, h => by
    by_cases hlt : s.time < f.unwind.lastFlushMaxTime
    · exact ⟨s, List.mem_cons_self, hlt⟩
    · unfold sampleLoop at h
      split at h
      · rw [if_neg (ne_true_of_eq_false hf)] at h
        obtain ⟨s', hs', hlt'⟩ := lt_of_violates_sampleLoop desired _ hs.of_cons (by exact hf) h
        -- the samples after `s` are not before it
        rw [lastFlushMaxTime_of_frame (frame_processSample _ s)] at hlt'
        exact absurd hlt' (UInt64.not_lt.2 (List.rel_of_pairwise_cons hs hs'))
      · rw [hf] at h
        cases h

theorem settings_sampleLoop (desired : UInt32) : ∀ (f : Flush σ) (samples : List PerfRecordSample),
    (sampleLoop B desired f samples).1.unwind.settings = f.unwind.settings
  | f, [] => rfl
  | f, s :: samples => by
    unfold sampleLoop
    split
    · split
      · rw [settings_sampleLoop desired, settings_of_frame (frame_processSample _ s)]
      · split
        · exact settings_of_frame (frame_forwardMmapBuffer _ f.unwind f.mmapIt)
        · rw [settings_sampleLoop desired, settings_of_frame (frame_processSample _ s)]
          rfl
    · rfl

/-- **The loop over the samples**, late where it ends with a violation of the time order. -/
theorem sampleLoop_steps (desired : UInt32) : ∀ (f : Flush σ) (samples : List PerfRecordSample), f.Ready →
    Steps B (sampleLoop B desired f samples).1.violatesTimeOrder (f.view samples)
      ((sampleLoop B desired f samples).1.view (sampleLoop B desired f samples).2)
  | _, [], _ => .refl
  | f, s :: samples, h => by
    unfold sampleLoop
    split
    · split
      · rename_i hlt
        have hready : ({ f with violatesTimeOrder := true } : Flush σ).Ready := ⟨h.stats, h.mmaps, h.tasks⟩
        have hlate := violates_sampleLoop (B := B) desired (processSample B { f with violatesTimeOrder := true } s)
          samples rfl
        have hrest := sampleLoop_steps desired _ samples (processSample_ready (B := B) hready s)
        rw [hlate] at hrest ⊢
        exact (processSample_steps hready (Std.le_of_lt hlt) (.inl rfl)).trans hrest
      · rename_i hlt
        split
        · rename_i hviolates
          have hf := forwardMmapBuffer_steps (B := B) (s :: samples) f.taskEventIt (.inl rfl) f.unwind
            f.mmapIt h.stats (Std.le_refl _)
          rw [← hviolates] at hf
          exact hf
        · have hle : f.unwind.lastFlushMaxTime ≤ s.time := UInt64.not_lt.1 hlt
          have hready : ({ f with unwind := { f.unwind with lastFlushMaxTime := s.time } } : Flush σ).Ready :=
            ⟨h.stats, h.mmaps, h.tasks⟩
          have hrest := sampleLoop_steps desired _ samples (processSample_ready (B := B) hready s)
          have hsample := (processSample_steps (B := B) hready (s := s) (Std.le_refl _) (.inr rfl)).trans hrest
          exact .head (.advance (f.view (s :: samples)) s List.mem_cons_self hle) hsample
    · exact .refl

/-! ## The task events after the samples -/

theorem frame_trailingLoop (desired : UInt32) : ∀ (u : PerfUnwind σ) (tasks : List TaskEvent),
    (trailingLoop B desired u tasks).1.frame = u.frame
  | u, [] => rfl
  | u, e :: tasks => by
    unfold trailingLoop
    split
    · rw [frame_trailingLoop desired, frame_eventBufferSize, frame_callUnlessStats]
    · rfl

theorem eventBufferSize_callUnlessStats (u : PerfUnwind σ) (x : Call) :
    (u.callUnlessStats B x).eventBufferSize = u.eventBufferSize := by
  unfold callUnlessStats
  split <;> rfl

theorem trailingLoop_steps {late : Bool} {desired size : UInt32} {waiting : List TaskEvent}
    (samples : List PerfRecordSample) (mmaps : List PerfRecordMmap) : ∀ (u : PerfUnwind σ) (tasks : List TaskEvent),
    u.stats.enabled = false → .trailing waiting size desired ∈ u.trace →
    due desired u.eventBufferSize tasks ⊆ due desired size waiting →
    Steps B late (u.view samples mmaps tasks)
      ((trailingLoop B desired u tasks).1.view samples mmaps (trailingLoop B desired u tasks).2)
  | u, [], _, _, _ => .refl
  | u, e :: tasks, hstats, hmark, hdue => by
    unfold trailingLoop
    split
    · rename_i hsize
      rw [due, if_pos hsize] at hdue
      obtain ⟨he, hdue⟩ := List.cons_subset.1 hdue
      have hmark' : .trailing waiting size desired ∈ (u.callUnlessStats B (.sendTaskEvent e)).trace := by
        simp [callUnlessStats, hstats, call, hmark]
      refine .head (.trail (u.view samples mmaps (e :: tasks)) u.registry e tasks waiting size desired rfl hmark he) ?_
      rw [show ({ u.view samples mmaps (e :: tasks) with tasks := tasks } : Core σ) = u.view samples mmaps tasks from rfl,
        ← view_callUnlessStats hstats]
      exact trailingLoop_steps samples mmaps
        { u.callUnlessStats B (.sendTaskEvent e) with
          eventBufferSize := (u.callUnlessStats B (.sendTaskEvent e)).eventBufferSize - e.size } tasks
        (by rw [stats_of_frame (frame_eventBufferSize _ _), stats_of_frame (frame_callUnlessStats u _), hstats])
        hmark' (by rw [eventBufferSize_callUnlessStats]; exact hdue)
    · exact .refl

/-! ## The flush -/

theorem countViolations_of_stats {u : PerfUnwind σ} (h : u.stats.enabled = false) : u.countViolations = u := by
  simp [countViolations, h]

theorem eraseUntil_of_stats {u : PerfUnwind σ} (h : u.stats.enabled = false) (samples : List PerfRecordSample)
    (mmaps : List PerfRecordMmap) (tasks : List TaskEvent) : u.eraseUntil samples mmaps tasks =
      { u with sampleBuffer := samples, mmapBuffer := mmaps, taskEventsBuffer := tasks } := by
  simp [eraseUntil, countFlush, h]

theorem startFlush_of_stats {u : PerfUnwind σ} (h : u.stats.enabled = false) :
    u.startFlush B =
      { unwind :=
          match u.sortBuffers.violatingMmap with
          | some m => u.sortBuffers.call B (.sendTimeOrderViolation m.time u.lastFlushMaxTime)
          | none => u.sortBuffers
        mmapIt := u.sortBuffers.mmapBuffer
        taskEventIt := u.sortBuffers.taskEventsBuffer
        violatesTimeOrder := u.sortBuffers.violatingMmap.isSome } := by
  have hs : u.sortBuffers.countViolations = u.sortBuffers := countViolations_of_stats h
  simp only [startFlush, hs]
  rfl

theorem frame_startFlush {u : PerfUnwind σ} (h : u.stats.enabled = false) :
    (u.startFlush B).unwind.frame = u.frame := by
  rw [startFlush_of_stats h]
  cases u.sortBuffers.violatingMmap <;> rfl

theorem startFlush_sampleBuffer {u : PerfUnwind σ} (h : u.stats.enabled = false) :
    (u.startFlush B).unwind.sampleBuffer = sortBy (fun s : PerfRecordSample => s.time) u.sampleBuffer := by
  rw [startFlush_of_stats h]
  cases u.sortBuffers.violatingMmap <;> rfl

theorem startFlush_ready {u : PerfUnwind σ} (h : u.stats.enabled = false) : (u.startFlush B).Ready where
  stats := by
    rw [stats_of_frame (frame_startFlush h)]
    exact h
  mmaps := by
    rw [startFlush_of_stats h]
    exact StableSort.sortBy_sorted _ _
  tasks := by
    rw [startFlush_of_stats h]
    exact StableSort.sortBy_sorted _ _

theorem startFlush_steps (late : Bool) {u : PerfUnwind σ} (h : u.stats.enabled = false) :
    Steps B late u.core ((u.startFlush B).view (u.startFlush B).unwind.sampleBuffer) := by
  refine .head (.sort u.core) ?_
  rw [startFlush_of_stats h]
  cases u.sortBuffers.violatingMmap with
  | none => exact .refl
  | some m => exact .single (.note _ u.sortBuffers.registry (.sendTimeOrderViolation m.time u.lastFlushMaxTime) rfl)

/-- A flush enters its loops with a violation where the first mmap comes before `m_lastFlushMaxTime`. -/
theorem startFlush_violates (u : PerfUnwind σ) :
    (u.startFlush B).violatesTimeOrder = true ↔ ∃ m ∈ u.mmapBuffer, m.time < u.lastFlushMaxTime := by
  have hsorted := StableSort.sortBy_sorted (fun m : PerfRecordMmap => m.time) u.mmapBuffer
  have hmem := StableSort.mem_sortBy (fun m : PerfRecordMmap => m.time) u.mmapBuffer
  have hcount : u.sortBuffers.countViolations.mmapBuffer = sortBy (fun m : PerfRecordMmap => m.time) u.mmapBuffer ∧
      u.sortBuffers.countViolations.lastFlushMaxTime = u.lastFlushMaxTime := by
    unfold countViolations
    split <;> exact ⟨rfl, rfl⟩
  simp only [startFlush, violatingMmap, hcount]
  generalize sortBy (fun m : PerfRecordMmap => m.time) u.mmapBuffer = l at *
  simp only [← hmem]
  cases l with
  | nil => simp
  | cons m ms =>
    simp only [List.head?_cons, Option.filter_some, List.mem_cons, exists_eq_or_imp]
    constructor
    · intro hm
      by_cases hlt : m.time < u.lastFlushMaxTime
      · exact .inl hlt
      · simp [hlt] at hm
    · rintro (hm | ⟨m', hm', hlt⟩)
      · simp [hm]
      · have : m.time < u.lastFlushMaxTime := Std.lt_of_le_of_lt (List.rel_of_pairwise_cons hsorted hm') hlt
        simp [this]

/-- **The loops of a flush** are steps, late where they end with a violation of the time order, and leave the settings
alone. -/
theorem flushLoops_steps {f : Flush σ} (h : f.Ready) (desired : UInt32) :
    Steps B (flushLoops B f desired).2 (f.view f.unwind.sampleBuffer) (flushLoops B f desired).1.core ∧
      (flushLoops B f desired).1.settings = f.unwind.settings := by
  have hsamples := sampleLoop_steps (B := B) desired f f.unwind.sampleBuffer h
  have hsettings := settings_sampleLoop (B := B) desired f f.unwind.sampleBuffer
  unfold flushLoops
  generalize sampleLoop B desired f f.unwind.sampleBuffer = g at *
  obtain ⟨g, samples⟩ := g
  have hframe := frame_trailingLoop (B := B) desired (g.leave desired) g.taskEventIt
  have hstats : (g.leave desired).stats.enabled = false := by
    rw [show (g.leave desired).stats = g.unwind.stats from rfl, stats_of_settings hsettings, h.stats]
  have htrailing : Steps B g.violatesTimeOrder ((g.leave desired).view samples g.mmapIt g.taskEventIt) _ :=
    trailingLoop_steps samples g.mmapIt (g.leave desired) g.taskEventIt hstats
      (List.mem_append_right _ List.mem_cons_self) (fun _ he => he)
  have hleave : Core.Step B g.violatesTimeOrder (g.view samples) _ := .leave _ g.unwind.eventBufferSize desired
  have hstats' : (trailingLoop B desired (g.leave desired) g.taskEventIt).1.stats.enabled = false := by
    rw [stats_of_frame hframe, hstats]
  dsimp only
  rw [eraseUntil_of_stats hstats']
  exact ⟨(hsamples.tail hleave).trans htrailing, (settings_of_frame hframe).trans hsettings⟩

@[simp] theorem core_setMaxEventBufferSize (u : PerfUnwind σ) (size : UInt32) :
    (u.setMaxEventBufferSize size).core = u.core := by
  unfold setMaxEventBufferSize
  split <;> rfl

@[simp] theorem core_setTargetEventBufferSize (u : PerfUnwind σ) (size : UInt32) :
    (u.setTargetEventBufferSize size).core = u.core := by
  unfold setTargetEventBufferSize
  dsimp only
  split
  · exact core_setMaxEventBufferSize _ _
  · rfl

theorem setMaxEventBufferSize_keeps (u : PerfUnwind σ) (size : UInt32) :
    (u.setMaxEventBufferSize size).stats = u.stats ∧
      (u.setMaxEventBufferSize size).timeOrderViolations = u.timeOrderViolations ∧
      (u.setMaxEventBufferSize size).eventBufferSize = u.eventBufferSize := by
  unfold setMaxEventBufferSize
  split <;> exact ⟨rfl, rfl, rfl⟩

theorem setTargetEventBufferSize_keeps (u : PerfUnwind σ) (size : UInt32) :
    (u.setTargetEventBufferSize size).stats = u.stats ∧
      (u.setTargetEventBufferSize size).timeOrderViolations = u.timeOrderViolations ∧
      (u.setTargetEventBufferSize size).eventBufferSize = u.eventBufferSize := by
  unfold setTargetEventBufferSize
  dsimp only
  split
  · exact setMaxEventBufferSize_keeps _ _
  · exact ⟨rfl, rfl, rfl⟩

@[simp] theorem core_growBuffer (u : PerfUnwind σ) (size : UInt32) : (u.growBuffer size).core = u.core :=
  core_setTargetEventBufferSize _ _

theorem growBuffer_keeps (u : PerfUnwind σ) (size : UInt32) :
    (u.growBuffer size).stats = u.stats ∧ (u.growBuffer size).timeOrderViolations = u.timeOrderViolations + 1 ∧
      (u.growBuffer size).eventBufferSize = u.eventBufferSize :=
  setTargetEventBufferSize_keeps _ _

/-- Something in the buffers comes before the end of an earlier flush. -/
def Violated (u : PerfUnwind σ) : Prop :=
  (∃ m ∈ u.mmapBuffer, m.time < u.lastFlushMaxTime) ∨ ∃ s ∈ u.sampleBuffer, s.time < u.lastFlushMaxTime

variable (B) in
/-- The flush counts a time order violation. -/
def violates (u : PerfUnwind σ) (desired : UInt32) : Bool := (flushLoops B (u.startFlush B) desired).2

/-- A flush that counts a violation found something violated. -/
theorem violated_of_violates {u : PerfUnwind σ} (h : u.stats.enabled = false) {desired : UInt32}
    (hviolates : u.violates B desired = true) : u.Violated := by
  cases hf : (u.startFlush B).violatesTimeOrder with
  | true => exact .inl ((startFlush_violates u).1 hf)
  | false =>
    obtain ⟨s, hs, hlt⟩ := lt_of_violates_sampleLoop desired (u.startFlush B)
      (by rw [startFlush_sampleBuffer h]; exact StableSort.sortBy_sorted _ _) hf hviolates
    rw [startFlush_sampleBuffer h, StableSort.mem_sortBy] at hs
    rw [lastFlushMaxTime_of_frame (frame_startFlush h)] at hlt
    exact .inr ⟨s, hs, hlt⟩

theorem flushEventBuffer_core (u : PerfUnwind σ) (desired : UInt32) :
    (u.flushEventBuffer B desired).core = (flushLoops B (u.startFlush B) desired).1.core := by
  unfold flushEventBuffer
  dsimp only
  split
  · exact core_growBuffer _ _
  · rfl

/-- **A flush** is a sequence of steps, late where it counts a violation. -/
theorem flushEventBuffer_steps {u : PerfUnwind σ} (h : u.stats.enabled = false) (desired : UInt32) :
    Steps B (u.violates B desired) u.core (u.flushEventBuffer B desired).core := by
  rw [flushEventBuffer_core]
  exact (startFlush_steps _ h).trans (flushLoops_steps (startFlush_ready h) desired).1

theorem flushEventBuffer_keeps {u : PerfUnwind σ} (h : u.stats.enabled = false) (desired : UInt32) :
    (u.flushEventBuffer B desired).stats = u.stats ∧ (u.flushEventBuffer B desired).timeOrderViolations =
      u.timeOrderViolations + (if u.violates B desired then 1 else 0) := by
  have hsettings := (flushLoops_steps (B := B) (startFlush_ready (B := B) h) desired).2.trans
    (settings_of_frame (frame_startFlush h))
  have hstats : (flushLoops B (u.startFlush B) desired).1.stats = u.stats := stats_of_settings hsettings
  have hviolations : (flushLoops B (u.startFlush B) desired).1.timeOrderViolations = u.timeOrderViolations :=
    (Settings.mk.inj hsettings).2.2.2.2.1
  unfold flushEventBuffer violates
  dsimp only
  split
  · obtain ⟨hs, hv, -⟩ := growBuffer_keeps (flushLoops B (u.startFlush B) desired).1 u.eventBufferSize
    exact ⟨hs.trans hstats, by rw [hv, hviolations]⟩
  · exact ⟨hstats, by rw [hviolations, UInt32.add_zero]⟩

/-! ## Operations -/

variable (B) in
/-- What operations do besides buffering an event and flushing. -/
inductive Quiet : PerfUnwind σ → PerfUnwind σ → Prop
  | note (u : PerfUnwind σ) (x : Call) (hx : x.isNote = true) : Quiet u (u.call B x)
  | resolve (u : PerfUnwind σ) (string : QByteArray) : Quiet u (u.resolveString B string).1
  | setMax (u : PerfUnwind σ) (size : UInt32) : Quiet u (u.setMaxEventBufferSize size)
  | setTarget (u : PerfUnwind σ) (size : UInt32) : Quiet u (u.setTargetEventBufferSize size)
  | register (u : PerfUnwind σ) (registry : Registry) : Quiet u { u with registry := registry }
  | round (u : PerfUnwind σ) : Quiet u { u with stats := u.stats.finishedRound }

variable (B) in
abbrev Quiets : PerfUnwind σ → PerfUnwind σ → Prop := ReflTransGen (Quiet B)

variable (B) in
def flushAll (u : PerfUnwind σ) (sizes : List UInt32) : PerfUnwind σ :=
  sizes.foldl (fun u desired => u.flushEventBuffer B desired) u

theorem flushAll_cons (u : PerfUnwind σ) (desired : UInt32) (sizes : List UInt32) :
    u.flushAll B (desired :: sizes) = (u.flushEventBuffer B desired).flushAll B sizes := rfl

theorem flushAll_snoc (u : PerfUnwind σ) (sizes : List UInt32) (desired : UInt32) :
    u.flushAll B (sizes ++ [desired]) = (u.flushAll B sizes).flushEventBuffer B desired := List.foldl_append ..

variable (B) in
/-- The event that an operation buffers. -/
def event? (u : PerfUnwind σ) : Op → Option Event
  | .registerElf mmap => some (.mmap mmap)
  | .comm comm => some (.task
      { pid := comm.pid, tid := comm.tid, time := comm.time, cpu := comm.cpu,
        type := .command (u.resolveString B comm.comm).2 })
  | .lost lost => some (.task
      { pid := lost.pid, tid := lost.tid, time := lost.time, cpu := lost.cpu, type := .lostDefinition lost.lost })
  | .sample sample => some (.sample sample)
  | .fork fork => some (.task
      { pid := fork.childPid, tid := fork.childTid, time := fork.time, cpu := fork.cpu,
        type := .threadStart fork.parentPid })
  | .exit exit => some (.task
      { pid := exit.childPid, tid := exit.childTid, time := exit.time, cpu := exit.cpu, type := .threadEnd })
  | .contextSwitch contextSwitch => some (.task
      { pid := contextSwitch.pid, tid := contextSwitch.tid, time := contextSwitch.time, cpu := contextSwitch.cpu,
        type := .contextSwitchDefinition (contextSwitch.misc &&& MISC_SWITCH_OUT != 0) })
  | _ => none

variable (B) in
/-- The events that the operations of a run buffer. -/
def passed (u : PerfUnwind σ) : List Op → List Event
  | [] => []
  | op :: ops => (u.event? B op).toList ++ passed (u.apply B op) ops

def enqueueAll (u : PerfUnwind σ) (events : List Event) : PerfUnwind σ := events.foldl enqueue u

theorem quiets_foldl {α : Type} {f : PerfUnwind σ → α → PerfUnwind σ} (hf : ∀ u a, Quiets B u (f u a)) :
    ∀ (l : List α) (u : PerfUnwind σ), Quiets B u (l.foldl f u)
  | [], _ => .refl
  | a :: l, u => (hf u a).trans (quiets_foldl hf l (f u a))

theorem addAttributes_quiets (u : PerfUnwind σ) (attributes : PerfEventAttributes) (name : QByteArray)
    (ids : List UInt64) : Quiets B u (u.addAttributes B attributes name ids) := by
  have hrevert : Quiets B u (if attributes.type = PerfEventAttributes.TYPE_TRACEPOINT ∧ u.targetEventBufferSize = 0
      then u.revertTargetEventBufferSize else u) := by
    split
    · exact .single (.setTarget u u.lastEventBufferSize)
    · exact .refl
  unfold addAttributes
  dsimp only
  split
  · exact hrevert
  · exact ((hrevert.tail (.register _ _)).tail (.note _ _ rfl)).tail (.register _ _)

theorem tracing_quiets (u : PerfUnwind σ) (tracingData : PerfTracingData) : Quiets B u (u.tracing B tracingData) :=
  .head (.register u _)
    (quiets_foldl (fun u (p : Int32 × EventFormat) => .single (.note u (.sendEventFormat p.1 p.2) rfl)) _ _)

theorem checkVersion_quiets (u : PerfUnwind σ) (version : QByteArray) : Quiets B u (u.checkVersion version) := by
  unfold checkVersion
  split
  · exact .single (.setTarget u 0)
  · exact .refl

theorem features_quiets (u : PerfUnwind σ) (features : PerfFeatures) : Quiets B u (u.features B features) := by
  have hattrs := quiets_foldl (B := B)
    (f := fun (u : PerfUnwind σ) (desc : EventDesc) => u.addAttributes B desc.attrs desc.name desc.ids)
    (fun u desc => addAttributes_quiets u desc.attrs desc.name desc.ids) features.eventDescs
      (u.tracing B features.tracingData)
  exact ((((tracing_quiets u _).trans hattrs).trans (checkVersion_quiets _ features.version)).tail
    (.note _ (.sendFeatures features) rfl)).tail (.register _ _)

theorem bufferEvent_shape (u : PerfUnwind σ) (event : Event) :
    ∃ sizes : List UInt32, sizes.length ≤ 2 ∧ u.bufferEvent B event = (u.enqueue event).flushAll B sizes := by
  unfold bufferEvent
  dsimp only
  split
  · exact ⟨[_], Nat.le_succ 1, rfl⟩
  · exact ⟨[], Nat.zero_le 2, rfl⟩

theorem finishedRound_shape (u : PerfUnwind σ) :
    ∃ v sizes, Quiets B u v ∧ sizes.length ≤ 1 ∧ u.finishedRound B = v.flushAll B sizes := by
  have hq : Quiets B u (if u.stats.enabled then { u with stats := u.stats.finishedRound } else u) := by
    split
    · exact .single (.round u)
    · exact .refl
  unfold finishedRound
  dsimp only
  generalize (if u.stats.enabled then { u with stats := u.stats.finishedRound } else u) = v at *
  split
  · exact ⟨v, [_], hq, Nat.le_refl 1, rfl⟩
  · split
    · exact ⟨_, [], hq.tail (.setTarget v 0), Nat.zero_le 1, rfl⟩
    · exact ⟨v, [], hq, Nat.zero_le 1, rfl⟩

/-- **Every operation is quiet, but for an event it buffers and up to two flushes at its end.** -/
theorem apply_shape (u : PerfUnwind σ) (op : Op) :
    ∃ v sizes, Quiets B u v ∧ sizes.length ≤ 2 ∧
      u.apply B op = (v.enqueueAll (u.event? B op).toList).flushAll B sizes := by
  have hbuffer : ∀ event, u.event? B op = some event → u.apply B op = u.bufferEvent B event →
      ∃ v sizes, Quiets B u v ∧ sizes.length ≤ 2 ∧
        u.apply B op = (v.enqueueAll (u.event? B op).toList).flushAll B sizes := by
    intro event he ha
    obtain ⟨sizes, hlen, hb⟩ := bufferEvent_shape (B := B) u event
    exact ⟨u, sizes, .refl, hlen, by rw [ha, hb, he]; rfl⟩
  cases op with
  | registerElf mmap => exact hbuffer _ rfl rfl
  | sample sample => exact hbuffer _ rfl rfl
  | lost lost => exact hbuffer _ rfl rfl
  | fork fork => exact hbuffer _ rfl rfl
  | exit exit => exact hbuffer _ rfl rfl
  | contextSwitch contextSwitch => exact hbuffer _ rfl rfl
  | comm comm =>
    obtain ⟨sizes, hlen, hb⟩ := bufferEvent_shape (B := B) (u.resolveString B comm.comm).1 (.task
      { pid := comm.pid, tid := comm.tid, time := comm.time, cpu := comm.cpu,
        type := .command (u.resolveString B comm.comm).2 })
    exact ⟨_, sizes, .single (.resolve u comm.comm), hlen, hb⟩
  | finishedRound =>
    obtain ⟨v, sizes, hq, hlen, he⟩ := finishedRound_shape (B := B) u
    exact ⟨v, sizes, hq, Nat.le_succ_of_le hlen, he⟩
  | attr attr => exact ⟨_, [], addAttributes_quiets u attr.attr attr.attr.name attr.ids, Nat.zero_le 2, rfl⟩
  | features features => exact ⟨_, [], features_quiets u features, Nat.zero_le 2, rfl⟩
  | tracing tracingData => exact ⟨_, [], tracing_quiets u tracingData, Nat.zero_le 2, rfl⟩
  | setMaxEventBufferSize size => exact ⟨_, [], .single (.setMax u size), Nat.zero_le 2, rfl⟩
  | setTargetEventBufferSize size => exact ⟨_, [], .single (.setTarget u size), Nat.zero_le 2, rfl⟩
  | finalize =>
    obtain ⟨v, sizes, hq, hlen, he⟩ := finishedRound_shape (B := B) u
    refine ⟨v, sizes ++ [0], hq, by simpa using hlen, ?_⟩
    rw [flushAll_snoc, show v.enqueueAll (u.event? B .finalize).toList = v from rfl, ← he]
    rfl

theorem enqueue_of_stats {u : PerfUnwind σ} (h : u.stats.enabled = false) (event : Event) :
    (u.enqueue event).stats = u.stats ∧ (u.enqueue event).timeOrderViolations = u.timeOrderViolations ∧
      (u.enqueue event).core = u.core.arrive event := by
  unfold enqueue append
  cases event <;> simp [h] <;> rfl

theorem Quiet.buffers {u v : PerfUnwind σ} (hq : Quiet B u v) :
    v.sampleBuffer = u.sampleBuffer ∧ v.mmapBuffer = u.mmapBuffer ∧ v.taskEventsBuffer = u.taskEventsBuffer ∧
      v.eventBufferSize = u.eventBufferSize := by
  have hcore : ∀ {x : PerfUnwind σ}, x.core = u.core → x.eventBufferSize = u.eventBufferSize →
      x.sampleBuffer = u.sampleBuffer ∧ x.mmapBuffer = u.mmapBuffer ∧ x.taskEventsBuffer = u.taskEventsBuffer ∧
        x.eventBufferSize = u.eventBufferSize :=
    fun h hsize => ⟨congrArg Core.samples h, congrArg Core.mmaps h, congrArg Core.tasks h, hsize⟩
  cases hq with
  | note x hx => exact ⟨rfl, rfl, rfl, rfl⟩
  | resolve string => exact ⟨rfl, rfl, rfl, rfl⟩
  | setMax size => exact hcore (core_setMaxEventBufferSize u size) (setMaxEventBufferSize_keeps u size).2.2
  | setTarget size => exact hcore (core_setTargetEventBufferSize u size) (setTargetEventBufferSize_keeps u size).2.2
  | register registry => exact ⟨rfl, rfl, rfl, rfl⟩
  | round => exact ⟨rfl, rfl, rfl, rfl⟩

theorem Quiets.buffers {u v : PerfUnwind σ} (hq : Quiets B u v) :
    v.sampleBuffer = u.sampleBuffer ∧ v.mmapBuffer = u.mmapBuffer ∧ v.taskEventsBuffer = u.taskEventsBuffer ∧
      v.eventBufferSize = u.eventBufferSize := by
  induction hq with
  | refl => exact ⟨rfl, rfl, rfl, rfl⟩
  | tail _ hq ih =>
    obtain ⟨hs, hm, ht, hsize⟩ := ih
    obtain ⟨hs', hm', ht', hsize'⟩ := hq.buffers
    exact ⟨hs'.trans hs, hm'.trans hm, ht'.trans ht, hsize'.trans hsize⟩

theorem Quiet.steps (late : Bool) {u v : PerfUnwind σ} (hq : Quiet B u v) (h : u.stats.enabled = false) :
    v.stats.enabled = false ∧ v.timeOrderViolations = u.timeOrderViolations ∧ Steps B late u.core v.core := by
  cases hq with
  | note x hx => exact ⟨h, rfl, .single (.note u.core u.registry x hx)⟩
  | resolve string => exact ⟨h, rfl, .single (.resolve u.core string)⟩
  | setMax size =>
    obtain ⟨hs, hv, -⟩ := setMaxEventBufferSize_keeps u size
    exact ⟨by rw [hs, h], hv, by rw [core_setMaxEventBufferSize]⟩
  | setTarget size =>
    obtain ⟨hs, hv, -⟩ := setTargetEventBufferSize_keeps u size
    exact ⟨by rw [hs, h], hv, by rw [core_setTargetEventBufferSize]⟩
  | register registry => exact ⟨h, rfl, .refl⟩
  | round => exact ⟨h, rfl, .refl⟩

theorem Quiets.steps (late : Bool) {u v : PerfUnwind σ} (hq : Quiets B u v) (h : u.stats.enabled = false) :
    v.stats.enabled = false ∧ v.timeOrderViolations = u.timeOrderViolations ∧ Steps B late u.core v.core := by
  induction hq with
  | refl => exact ⟨h, rfl, .refl⟩
  | tail _ hq ih =>
    obtain ⟨hs, hv, hsteps⟩ := ih
    obtain ⟨hs', hv', hsteps'⟩ := hq.steps late hs
    exact ⟨hs', hv'.trans hv, hsteps.trans hsteps'⟩

/-- What every flush keeps, flushes keep. -/
theorem flushAll_induction {P : PerfUnwind σ → Prop}
    (hflush : ∀ {u : PerfUnwind σ} (desired : UInt32), P u → P (u.flushEventBuffer B desired)) :
    ∀ (sizes : List UInt32) {u : PerfUnwind σ}, P u → P (u.flushAll B sizes)
  | [], _, h => h
  | desired :: sizes, _, h => flushAll_induction hflush sizes (hflush desired h)

/-- What every flush that counts no violation keeps, flushes that count no violation keep. -/
theorem flushAll_keeps {P : PerfUnwind σ → Prop} (hflush : ∀ {u : PerfUnwind σ} {desired : UInt32},
      u.stats.enabled = false → u.violates B desired = false → P u → P (u.flushEventBuffer B desired)) :
    ∀ (sizes : List UInt32) {u : PerfUnwind σ}, u.stats.enabled = false → ∃ n ≤ sizes.length,
      (u.flushAll B sizes).timeOrderViolations = u.timeOrderViolations + UInt32.ofNat n ∧
      (n = 0 → P u → P (u.flushAll B sizes))
  | [], u, _ => ⟨0, Nat.le_refl 0, by simp [flushAll], fun _ h => h⟩
  | desired :: sizes, u, h => by
    obtain ⟨hs, hv⟩ := flushEventBuffer_keeps (B := B) h desired
    obtain ⟨n, hn, hv', hkeeps⟩ := flushAll_keeps hflush sizes (u := u.flushEventBuffer B desired) (by rw [hs, h])
    rw [flushAll_cons]
    cases hlate : u.violates B desired with
    | false =>
      rw [hlate] at hv
      exact ⟨n, Nat.le_succ_of_le hn, by simpa [hv] using hv', fun h0 hP => hkeeps h0 (hflush h hlate hP)⟩
    | true =>
      refine ⟨n + 1, Nat.succ_le_succ hn, ?_, fun h0 => absurd h0 (Nat.succ_ne_zero n)⟩
      rw [hv', hv, hlate, if_pos rfl, UInt32.ofNat_add, UInt32.add_assoc, UInt32.add_comm 1]
      rfl

/-- Flushes that count no violation are not late. -/
theorem flushAll_steps (sizes : List UInt32) {u : PerfUnwind σ} (h : u.stats.enabled = false) :
    (u.flushAll B sizes).stats.enabled = false ∧ ∃ n ≤ sizes.length,
      (u.flushAll B sizes).timeOrderViolations = u.timeOrderViolations + UInt32.ofNat n ∧
      Steps B (decide (0 < n)) u.core (u.flushAll B sizes).core := by
  obtain ⟨hs, hlate⟩ := flushAll_induction (B := B)
    (P := fun v => v.stats.enabled = false ∧ Steps B true u.core v.core)
    (fun desired hv => ⟨by rw [(flushEventBuffer_keeps hv.1 desired).1, hv.1],
      hv.2.trans (flushEventBuffer_steps hv.1 desired).late⟩) sizes ⟨h, .refl⟩
  obtain ⟨n, hn, hv, hearly⟩ := flushAll_keeps (B := B) (P := fun v => Steps B false u.core v.core)
    (fun {v} {desired} hv hviolates hsteps => hsteps.trans (hviolates ▸ flushEventBuffer_steps hv desired)) sizes h
  refine ⟨hs, n, hn, hv, ?_⟩
  cases n with
  | zero => exact hearly rfl .refl
  | succ n => exact hlate

theorem enqueueAll_moves (late : Bool) : ∀ (events : List Event) {u : PerfUnwind σ}, u.stats.enabled = false →
    (u.enqueueAll events).stats.enabled = false ∧
      (u.enqueueAll events).timeOrderViolations = u.timeOrderViolations ∧
      Moves B late u.core (u.enqueueAll events).core
  | [], u, h => ⟨h, rfl, .refl⟩
  | event :: events, u, h => by
    obtain ⟨hs, hv, hc⟩ := enqueue_of_stats h event
    obtain ⟨hs', hv', hm⟩ := enqueueAll_moves late events (u := u.enqueue event) (by rw [hs, h])
    rw [hc] at hm
    exact ⟨hs', hv'.trans hv, .head (.arrive u.core event) hm⟩

/-- So few violations do not wrap their count. -/
theorem eq_zero_of_ofNat {n : Nat} (hn : n ≤ 2) (h : UInt32.ofNat n = 0) : n = 0 := by
  have htoNat := congrArg UInt32.toNat h
  rwa [UInt32.toNat_ofNat', Nat.mod_eq_of_lt (by omega)] at htoNat

/-- **Every operation is a sequence of moves**, none of them late where it starts and ends with no violation counted. -/
theorem apply_moves {u : PerfUnwind σ} (h : u.stats.enabled = false) (op : Op) :
    (u.apply B op).stats.enabled = false ∧ Moves B true u.core (u.apply B op).core ∧
      (u.timeOrderViolations = 0 → (u.apply B op).timeOrderViolations = 0 →
        Moves B false u.core (u.apply B op).core) := by
  obtain ⟨v, sizes, hq, hlen, he⟩ := apply_shape (B := B) u op
  have hquiet := fun late => hq.steps late h
  have henqueue := fun late => enqueueAll_moves (B := B) late (u.event? B op).toList (hquiet late).1
  obtain ⟨hs, n, hn, hv, hsteps⟩ := flushAll_steps (B := B) sizes (henqueue true).1
  rw [he]
  refine ⟨hs, ((hquiet true).2.2.moves.trans (henqueue true).2.2).trans hsteps.late.moves, fun h0 h0' => ?_⟩
  rw [hv, (henqueue true).2.1, (hquiet true).2.1, h0, UInt32.zero_add] at h0'
  obtain rfl := eq_zero_of_ofNat (Nat.le_trans hn hlen) h0'
  exact ((hquiet false).2.2.moves.trans (henqueue false).2.2).trans hsteps.moves

/-- **Every run is a sequence of moves**, none of them late where no violation is counted. -/
theorem run_moves : ∀ (ops : List Op) {u : PerfUnwind σ}, u.stats.enabled = false →
    (u.run B ops).stats.enabled = false ∧ Moves B true u.core (u.run B ops).core ∧
      ((∀ pre, pre <+: ops → (u.run B pre).timeOrderViolations = 0) → Moves B false u.core (u.run B ops).core)
  | [], _, h => ⟨h, .refl, fun _ => .refl⟩
  | op :: ops, u, h => by
    obtain ⟨hs, hmoves, hnow⟩ := apply_moves (B := B) h op
    obtain ⟨hs', hmoves', hnow'⟩ := run_moves ops hs
    refine ⟨hs', hmoves.trans hmoves', fun h0 => ?_⟩
    have hfirst := hnow (h0 [] (List.nil_prefix)) (h0 [op] ⟨ops, rfl⟩)
    refine hfirst.trans (hnow' (fun pre hpre => h0 (op :: pre) ?_))
    obtain ⟨post, rfl⟩ := hpre
    exact ⟨post, rfl⟩

end PerfUnwind

end PerfParser
