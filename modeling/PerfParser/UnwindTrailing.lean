import PerfParser.BufferSizes
import PerfParser.UnwindTasks
/-!
# UnwindTrailing — what a flush sends, and the samples it leaves

The task events between the samples are sent before a sample that is not earlier, and what the loop after the samples
sends follows from where the loop over them ends.  Where that runs out of samples or stops at the size, nothing sent
overtakes a sample.  Where it stops at a violation of the time order (`Stops`), the loop after it goes on with the task
events as if the samples were through: they overtake the sample it stopped at (`Overtakes`).
-/
namespace PerfParser

open StableSort (sortBy)

/-! ## Later than the samples -/

section After

variable {α : Type} (time : α → UInt64)

/-- What comes after all samples that are done. -/
def after (done : List PerfRecordSample) (l : List α) : List α := l.filter (fun a => done.all (fun s => s.time < time a))

@[simp] theorem after_nil (l : List α) : after time [] l = l := by simp [after]

theorem after_cons (s : PerfRecordSample) (done : List PerfRecordSample) (l : List α) :
    after time (s :: done) l = after time done (l.filter (fun a => s.time < time a)) := by
  simp only [after, List.filter_filter, List.all_cons]
  exact List.filter_congr fun a _ => Bool.and_comm _ _

variable {time}

theorem filter_of_lt {t : UInt64} {a : α} {l : List α} (hs : (a :: l).Pairwise (StableSort.KeyLE time))
    (h : t < time a) : (a :: l).filter (fun b => t < time b) = a :: l := by
  rw [List.filter_eq_self]
  intro b hb
  rcases List.mem_cons.1 hb with rfl | hb
  · simpa using h
  · simpa using Std.lt_of_lt_of_le h (List.rel_of_pairwise_cons hs hb)

end After

namespace PerfUnwind

variable {σ : Type} {B : Backend σ}

/-! ## What the loops leave -/

theorem forwardMmapBuffer_left (t : UInt64) : ∀ (u : PerfUnwind σ) {mmaps : List PerfRecordMmap},
    Sorted (fun m : PerfRecordMmap => m.time) mmaps →
    (forwardMmapBuffer B t u mmaps).2 = mmaps.filter (fun m => t < m.time)
  | u, [], _ => rfl
  | u, m :: mmaps, hs => by
    unfold forwardMmapBuffer
    split
    · rename_i hle
      rw [forwardMmapBuffer_left t _ hs.of_cons, List.filter_cons_of_neg (by simpa using hle)]
    · rename_i hlt
      rw [filter_of_lt hs (UInt64.not_le.1 hlt)]

theorem filter_filter_lt {α : Type} (time : α → UInt64) {t t' : UInt64} (h : t' ≤ t) (l : List α) :
    (l.filter (fun a => t' < time a)).filter (fun a => t < time a) = l.filter (fun a => t < time a) := by
  rw [List.filter_filter]
  refine List.filter_congr fun a _ => ?_
  by_cases ha : t < time a
  · simp [ha, Std.lt_of_le_of_lt h ha]
  · simp [ha]

theorem processTask_left {t : UInt64} {u : PerfUnwind σ} {mmaps : List PerfRecordMmap} {e : TaskEvent} (he : e.time ≤ t)
    (hs : Sorted (fun m : PerfRecordMmap => m.time) mmaps) :
    (u.processTask B mmaps e).2.filter (fun m => t < m.time) = mmaps.filter (fun m => t < m.time) := by
  by_cases h : u.stats.enabled = true
  · simp only [processTask, h, if_true]
  · rw [processTask_of_stats (Bool.eq_false_of_not_eq_true h)]
    unfold beforeSend
    cases e.forkedFrom with
    | some parentPid =>
      dsimp only
      rw [forwardMmapBuffer_left e.time u hs, filter_filter_lt _ he]
    | none => rfl

theorem processTasks_left (t : UInt64) : ∀ (u : PerfUnwind σ) {mmaps : List PerfRecordMmap} {tasks : List TaskEvent},
    Sorted (fun m : PerfRecordMmap => m.time) mmaps → Sorted TaskEvent.time tasks →
    (processTasks B t u mmaps tasks).2.1.filter (fun m => t < m.time) = mmaps.filter (fun m => t < m.time) ∧
      (processTasks B t u mmaps tasks).2.2 = tasks.filter (fun e => t < e.time)
  | u, mmaps, [], _, _ => ⟨rfl, rfl⟩
  | u, mmaps, e :: tasks, hm, ht => by
    unfold processTasks
    split
    · rename_i hle
      obtain ⟨hm', ht'⟩ := processTasks_left t (u.processTask B mmaps e).1
        (hm.sublist (processTask_suffix (B := B) u mmaps e).sublist) ht.of_cons
      refine ⟨hm'.trans (processTask_left hle hm), ht'.trans ?_⟩
      rw [List.filter_cons_of_neg (by simpa using hle)]
    · rename_i hlt
      exact ⟨rfl, (filter_of_lt ht (UInt64.not_le.1 hlt)).symm⟩

theorem processSample_left {f : Flush σ} (hm : Sorted (fun m : PerfRecordMmap => m.time) f.mmapIt)
    (ht : Sorted TaskEvent.time f.taskEventIt) (s : PerfRecordSample) :
    (processSample B f s).mmapIt = f.mmapIt.filter (fun m => s.time < m.time) ∧
      (processSample B f s).taskEventIt = f.taskEventIt.filter (fun e => s.time < e.time) := by
  obtain ⟨hm', ht'⟩ := processTasks_left (B := B) s.time f.unwind hm ht
  have hsuffix := processTasks_suffix (B := B) s.time f.unwind f.mmapIt f.taskEventIt
  refine ⟨?_, ht'⟩
  rw [← hm']
  exact forwardMmapBuffer_left s.time _ (hm.sublist hsuffix.1.sublist)

/-! ## Where the loop over the samples stops -/

/-- The size of the buffers after the samples that are done, with the mmaps and task events up to them. -/
def sizeAfter (samples : List PerfRecordSample) (mmaps : List PerfRecordMmap) (tasks : List TaskEvent)
    (done : List PerfRecordSample) : UInt32 :=
  .ofNat (PerfParser.bufferedBytes (samples.drop done.length) (after (fun m : PerfRecordMmap => m.time) done mmaps)
    (after TaskEvent.time done tasks))

theorem sizeAfter_cons (s : PerfRecordSample) (samples : List PerfRecordSample) (mmaps : List PerfRecordMmap)
    (tasks : List TaskEvent) (done : List PerfRecordSample) :
    sizeAfter (s :: samples) mmaps tasks (s :: done) = sizeAfter samples
      (mmaps.filter (fun m => s.time < m.time)) (tasks.filter (fun e => s.time < e.time)) done := by
  rw [sizeAfter, after_cons, after_cons]
  rfl

/-- The loop over sorted samples gets through the late ones and stops at `s`, the first in order, for an event too late
before it. -/
structure Stops (violated : Prop) (last : UInt64) (desired : UInt32) (mmaps : List PerfRecordMmap)
    (tasks : List TaskEvent) (late : List PerfRecordSample) (s : PerfRecordSample) (rest : List PerfRecordSample) :
    Prop where
  tooLate : ∀ x ∈ late, x.time < last
  inOrder : last ≤ s.time
  violated : violated ∨ late ≠ []
  full : ∀ done, done <+: late → desired < sizeAfter (late ++ s :: rest) mmaps tasks done

theorem Accounted.sizeAfter_nil {u : PerfUnwind σ} {samples : List PerfRecordSample} {mmaps : List PerfRecordMmap}
    {tasks : List TaskEvent} (h : u.Accounted samples mmaps tasks) :
    sizeAfter samples mmaps tasks [] = u.eventBufferSize := by
  rw [h, sizeAfter, after_nil, after_nil]
  rfl

theorem Stops.cons {violated : Prop} {last : UInt64} {desired : UInt32} {mmaps : List PerfRecordMmap}
    {tasks : List TaskEvent} {x : PerfRecordSample} {late : List PerfRecordSample} {s : PerfRecordSample}
    {rest : List PerfRecordSample} (hx : x.time < last)
    (hfull : desired < sizeAfter (x :: (late ++ s :: rest)) mmaps tasks []) :
    Stops violated last desired mmaps tasks (x :: late) s rest ↔
      Stops True last desired (mmaps.filter (fun m => x.time < m.time)) (tasks.filter (fun e => x.time < e.time))
        late s rest := by
  constructor
  · intro h
    refine ⟨fun y hy => h.tooLate y (List.mem_cons_of_mem x hy), h.inOrder, .inl trivial, fun done hdone => ?_⟩
    rw [← sizeAfter_cons]
    exact h.full (x :: done) (List.cons_prefix_cons.2 ⟨rfl, hdone⟩)
  · intro h
    refine ⟨fun y hy => ?_, h.inOrder, .inr (List.cons_ne_nil x late), fun done hdone => ?_⟩
    · rcases List.mem_cons.1 hy with rfl | hy
      · exact hx
      · exact h.tooLate y hy
    · cases done with
      | nil => exact hfull
      | cons y done =>
        obtain ⟨rfl, hdone'⟩ := List.cons_prefix_cons.1 hdone
        rw [List.cons_append, sizeAfter_cons]
        exact h.full done hdone'

/-- A running flush over sorted buffers whose size is accounted for. -/
structure Flush.Running (f : Flush σ) (samples : List PerfRecordSample) : Prop where
  mmaps : PerfUnwind.Sorted (fun m : PerfRecordMmap => m.time) f.mmapIt
  tasks : PerfUnwind.Sorted TaskEvent.time f.taskEventIt
  accounted : f.unwind.Accounted samples f.mmapIt f.taskEventIt

theorem Flush.Running.processSample {f : Flush σ} {s : PerfRecordSample} {samples : List PerfRecordSample}
    (h : f.Running (s :: samples)) : (processSample B f s).Running samples where
  mmaps := h.mmaps.sublist (processSample_suffix (B := B) f s).1.sublist
  tasks := h.tasks.sublist (processSample_suffix (B := B) f s).2.sublist
  accounted := processSample_accounted h.accounted

/-- **Where the samples make the loop stop**, it stops. -/
theorem sampleLoop_stops (desired : UInt32) : ∀ (late : List PerfRecordSample) (f : Flush σ) {s : PerfRecordSample}
    {rest : List PerfRecordSample}, f.Running (late ++ s :: rest) →
    Stops (f.violatesTimeOrder = true) f.unwind.lastFlushMaxTime desired f.mmapIt f.taskEventIt late s rest →
    (sampleLoop B desired f (late ++ s :: rest)).2 = s :: rest ∧
      (sampleLoop B desired f (late ++ s :: rest)).1.mmapIt =
        f.mmapIt.filter (fun m => f.unwind.lastFlushMaxTime < m.time) ∧
      (sampleLoop B desired f (late ++ s :: rest)).1.taskEventIt = after TaskEvent.time late f.taskEventIt
  | [], f, s, rest, hrun, h => by
    have hsize := h.full [] List.nil_prefix
    rw [hrun.accounted.sizeAfter_nil] at hsize
    have hviolated : f.violatesTimeOrder = true := h.violated.resolve_right (fun hne => hne rfl)
    rw [List.nil_append, sampleLoop, if_pos hsize, if_neg (UInt64.not_lt.2 h.inOrder), if_pos hviolated, after_nil]
    exact ⟨rfl, forwardMmapBuffer_left _ _ hrun.mmaps, rfl⟩
  | x :: late, f, s, rest, hrun, h => by
    have hsize := h.full [] List.nil_prefix
    have hx := h.tooLate x List.mem_cons_self
    have htail := (Stops.cons hx hsize).1 h
    rw [hrun.accounted.sizeAfter_nil] at hsize
    have hrun' : ({ f with violatesTimeOrder := true } : Flush σ).Running (x :: (late ++ s :: rest)) :=
      ⟨hrun.mmaps, hrun.tasks, hrun.accounted⟩
    obtain ⟨hm, ht⟩ := processSample_left (B := B) hrun'.mmaps hrun'.tasks x
    have hlast := lastFlushMaxTime_of_frame (frame_processSample (B := B) { f with violatesTimeOrder := true } x)
    rw [List.cons_append, sampleLoop, if_pos hsize, if_pos hx]
    have hrest := sampleLoop_stops desired late _ (hrun'.processSample (B := B))
      (by rw [hm, ht, hlast]; exact ⟨htail.tooLate, htail.inOrder, .inl rfl, htail.full⟩)
    rw [hm, ht, hlast] at hrest
    obtain ⟨hleft, hmmaps, htasks⟩ := hrest
    refine ⟨hleft, hmmaps.trans (filter_filter_lt _ (Std.le_of_lt hx) _), htasks.trans ?_⟩
    rw [after_cons]

/-- **A loop that ends above the size with samples left** stopped at the first of them. -/
theorem stops_of_sampleLoop (desired : UInt32) : ∀ (f : Flush σ) {samples : List PerfRecordSample} {s : PerfRecordSample}
    {rest : List PerfRecordSample}, Sorted (fun s : PerfRecordSample => s.time) samples → f.Running samples →
    (sampleLoop B desired f samples).2 = s :: rest →
    desired < (sampleLoop B desired f samples).1.unwind.eventBufferSize →
    ∃ late, samples = late ++ s :: rest ∧
      Stops (f.violatesTimeOrder = true) f.unwind.lastFlushMaxTime desired f.mmapIt f.taskEventIt late s rest
  | f, [], s, rest, _, _, hleft, _ => by cases hleft
  | f, x :: samples, s, rest, hs, hrun, hleft, hsize => by
    unfold sampleLoop at hleft hsize
    split at hleft
    · rename_i hfull
      rw [if_pos hfull] at hsize
      have hfull' := hrun.accounted.sizeAfter_nil.symm ▸ hfull
      split at hleft
      · rename_i hx
        rw [if_pos hx] at hsize
        have hrun' : ({ f with violatesTimeOrder := true } : Flush σ).Running (x :: samples) :=
          ⟨hrun.mmaps, hrun.tasks, hrun.accounted⟩
        obtain ⟨late, rfl, hstops⟩ := stops_of_sampleLoop desired _ hs.of_cons (hrun'.processSample (B := B)) hleft hsize
        obtain ⟨hm, ht⟩ := processSample_left (B := B) hrun'.mmaps hrun'.tasks x
        rw [hm, ht, lastFlushMaxTime_of_frame (frame_processSample (B := B) _ x)] at hstops
        exact ⟨x :: late, rfl, (Stops.cons hx hfull').2 ⟨hstops.tooLate, hstops.inOrder, .inl trivial, hstops.full⟩⟩
      · rename_i hx
        rw [if_neg hx] at hsize
        split at hleft
        · rename_i hviolated
          obtain ⟨rfl, rfl⟩ := List.cons.inj hleft
          refine ⟨[], rfl, ⟨fun y hy => (List.not_mem_nil hy).elim, UInt64.not_lt.1 hx,
            .inl hviolated, fun done hdone => ?_⟩⟩
          rw [List.prefix_nil.1 hdone]
          exact hfull'
        · rename_i hviolated
          rw [if_neg hviolated] at hsize
          -- from here on the samples are in order, and nothing but the size stops the loop
          rcases sampleLoop_ends (B := B) desired (processSample B
              { f with unwind := { f.unwind with lastFlushMaxTime := x.time } } x) samples with hend | hend | hend
          · rw [hend] at hleft
            cases hleft
          · obtain ⟨y, hy, hlt⟩ := lt_of_violates_sampleLoop desired _ hs.of_cons
              (by exact Bool.eq_false_of_not_eq_true hviolated) hend
            rw [lastFlushMaxTime_of_frame (frame_processSample _ x)] at hlt
            exact absurd hlt (UInt64.not_lt.2 (List.rel_of_pairwise_cons hs hy))
          · exact absurd hsize hend
    · rename_i hfull
      rw [if_neg hfull] at hsize
      exact absurd hsize hfull

/-! ## What the loops send -/

@[simp] theorem sent_callUnlessStats (u : PerfUnwind σ) (x : Call) : sent (u.callUnlessStats B x).trace =
    sent u.trace ++ if u.stats.enabled then [] else (match x with | .sendTaskEvent e => [e] | _ => []) := by
  unfold callUnlessStats
  split
  · rw [List.append_nil]
  · cases x <;> simp [call]

theorem sent_forwardMmapBuffer (t : UInt64) : ∀ (u : PerfUnwind σ) (mmaps : List PerfRecordMmap),
    sent (forwardMmapBuffer B t u mmaps).1.trace = sent u.trace
  | u, [] => rfl
  | u, m :: mmaps => by
    unfold forwardMmapBuffer
    split
    · rw [sent_forwardMmapBuffer t]
      simp [forwardMmap]
    · rfl

theorem sent_processTask (u : PerfUnwind σ) (mmaps : List PerfRecordMmap) (e : TaskEvent) :
    sent (u.processTask B mmaps e).1.trace = sent u.trace ++ if u.stats.enabled then [] else [e] := by
  cases h : u.stats.enabled with
  | true => simp [processTask, h]
  | false =>
    have hbefore : sent (u.beforeSend B mmaps e).1.trace = sent u.trace := by
      unfold beforeSend
      cases e.forkedFrom with
      | some parentPid => simp [call, sent_forwardMmapBuffer]
      | none => cases hd : e.endsProcess <;> simp [call]
    rw [processTask_of_stats h]
    simp [call, hbefore]

theorem sent_processTasks (t : UInt64) : ∀ (u : PerfUnwind σ) (mmaps : List PerfRecordMmap) (tasks : List TaskEvent),
    ∃ l, sent (processTasks B t u mmaps tasks).1.trace = sent u.trace ++ l ∧ ∀ e ∈ l, e.time ≤ t
  | u, mmaps, [] => ⟨[], by simp [processTasks], by simp⟩
  | u, mmaps, e :: tasks => by
    unfold processTasks
    split
    · rename_i hle
      obtain ⟨l, hl, hlate⟩ := sent_processTasks t (u.processTask B mmaps e).1 (u.processTask B mmaps e).2 tasks
      refine ⟨(if u.stats.enabled then [] else [e]) ++ l, ?_, fun e' he' => ?_⟩
      · rw [hl, sent_processTask, List.append_assoc]
      · rcases List.mem_append.1 he' with he' | he'
        · split at he'
          · cases he'
          · rw [List.mem_singleton.1 he']
            exact hle
        · exact hlate e' he'
    · exact ⟨[], by simp, by simp⟩

theorem sent_processSample (f : Flush σ) (s : PerfRecordSample) :
    ∃ l, sent (processSample B f s).unwind.trace = sent f.unwind.trace ++ l ∧ ∀ e ∈ l, e.time ≤ s.time := by
  obtain ⟨l, hl, hlate⟩ := sent_processTasks (B := B) s.time f.unwind f.mmapIt f.taskEventIt
  refine ⟨l, ?_, hlate⟩
  simp [processSample, sent_forwardMmapBuffer, hl]

/-- **What the loop over the samples sends** is not after a sample it leaves. -/
theorem sent_sampleLoop (desired : UInt32) : ∀ (f : Flush σ) {samples : List PerfRecordSample},
    Sorted (fun s : PerfRecordSample => s.time) samples →
    ∃ l, sent (sampleLoop B desired f samples).1.unwind.trace = sent f.unwind.trace ++ l ∧
      ∀ e ∈ l, ∀ s ∈ (sampleLoop B desired f samples).2, ¬s.time < e.time
  | f, [], _ => ⟨[], by simp [sampleLoop], by simp⟩
  | f, s :: samples, hs => by
    have hgo : ∀ g : Flush σ, sent g.unwind.trace = sent f.unwind.trace →
        ∃ l, sent (sampleLoop B desired (processSample B g s) samples).1.unwind.trace = sent f.unwind.trace ++ l ∧
          ∀ e ∈ l, ∀ s' ∈ (sampleLoop B desired (processSample B g s) samples).2, ¬s'.time < e.time := by
      intro g hg
      obtain ⟨l, hl, hbefore⟩ := sent_processSample (B := B) g s
      obtain ⟨l', hl', hleft⟩ := sent_sampleLoop desired (processSample B g s) hs.of_cons
      refine ⟨l ++ l', by rw [hl', hl, hg, List.append_assoc], fun e he s' hs' => ?_⟩
      rcases List.mem_append.1 he with he | he
      · have hmem := (sampleLoop_suffix (B := B) desired (processSample B g s) samples).1.subset hs'
        exact UInt64.not_lt.2 (Std.le_trans (hbefore e he) (List.rel_of_pairwise_cons hs hmem))
      · exact hleft e he s' hs'
    unfold sampleLoop
    split
    · split
      · exact hgo { f with violatesTimeOrder := true } rfl
      · split
        · exact ⟨[], by simp [sent_forwardMmapBuffer], by simp⟩
        · exact hgo { f with unwind := { f.unwind with lastFlushMaxTime := s.time } } rfl
    · exact ⟨[], by simp, by simp⟩

theorem sent_trailingLoop (desired : UInt32) : ∀ (u : PerfUnwind σ) (tasks : List TaskEvent),
    sent (trailingLoop B desired u tasks).1.trace =
      sent u.trace ++ if u.stats.enabled then [] else due desired u.eventBufferSize tasks
  | u, [] => by simp [trailingLoop, due]
  | u, e :: tasks => by
    unfold trailingLoop due
    split
    · dsimp only
      rw [sent_trailingLoop desired]
      dsimp only
      rw [stats_of_frame (frame_callUnlessStats u (.sendTaskEvent e)), eventBufferSize_callUnlessStats,
        sent_callUnlessStats, List.append_assoc]
      cases u.stats.enabled <;> rfl
    · simp

theorem startFlush_sent (u : PerfUnwind σ) :
    sent (u.startFlush B).unwind.trace = sent u.trace ∧
      (u.startFlush B).unwind.stats.enabled = u.stats.enabled ∧
      (u.startFlush B).unwind.lastFlushMaxTime = u.lastFlushMaxTime := by
  have hcount : u.sortBuffers.countViolations.trace = u.trace ∧
      u.sortBuffers.countViolations.stats.enabled = u.stats.enabled ∧
      u.sortBuffers.countViolations.lastFlushMaxTime = u.lastFlushMaxTime := by
    unfold countViolations
    split <;> exact ⟨rfl, rfl, rfl⟩
  obtain ⟨htrace, hstats, hlast⟩ := hcount
  unfold startFlush
  dsimp only
  generalize u.sortBuffers.countViolations = v at *
  cases v.violatingMmap with
  | none => exact ⟨congrArg sent htrace, hstats, hlast⟩
  | some m => exact ⟨by simp [call, htrace], hstats, hlast⟩

/-! ## A flush -/

/-- A call of `flushEventBuffer`. -/
structure FlushCall (σ : Type) where
  unwind : PerfUnwind σ
  desiredBufferSize : UInt32

namespace FlushCall

variable (B) in
def result (call : FlushCall σ) : PerfUnwind σ := call.unwind.flushEventBuffer B call.desiredBufferSize

variable (B) in
/-- The task events that the call sends. -/
def sends (call : FlushCall σ) : List TaskEvent :=
  (sent (call.result B).trace).drop (sent call.unwind.trace).length

variable (B) in
/-- No task event that the call sends overtakes a sample that it leaves. -/
def InTime (call : FlushCall σ) : Prop :=
  ∀ e ∈ call.sends B, ∀ s ∈ (call.result B).sampleBuffer, ¬s.time < e.time

instance (call : FlushCall σ) : Decidable (call.InTime B) :=
  inferInstanceAs (Decidable (∀ e ∈ call.sends B, ∀ s ∈ (call.result B).sampleBuffer, ¬s.time < e.time))

/-- The task events that are due when the loop over the samples stops, with the late ones done and the others left. -/
def dueAfter (call : FlushCall σ) (late left : List PerfRecordSample) : List TaskEvent :=
  let u := call.unwind.sortBuffers
  let tasks := after TaskEvent.time late u.taskEventsBuffer
  due call.desiredBufferSize
    (.ofNat (PerfParser.bufferedBytes left (u.mmapBuffer.filter (fun m => u.lastFlushMaxTime < m.time)) tasks)) tasks

/-- The loop over the samples stops at a violation of the time order, and a task event after the sample it stops at is
due. -/
structure Overtakes (call : FlushCall σ) : Prop where
  sends : call.unwind.stats.enabled = false
  stops : ∃ late s rest, call.unwind.sortBuffers.sampleBuffer = late ++ s :: rest ∧
    Stops (∃ m ∈ call.unwind.mmapBuffer, m.time < call.unwind.lastFlushMaxTime) call.unwind.lastFlushMaxTime
      call.desiredBufferSize call.unwind.sortBuffers.mmapBuffer call.unwind.sortBuffers.taskEventsBuffer late s rest ∧
    ∃ e ∈ call.dueAfter late (s :: rest), s.time < e.time

end FlushCall

theorem eraseUntil_trace (u : PerfUnwind σ) (samples : List PerfRecordSample) (mmaps : List PerfRecordMmap)
    (tasks : List TaskEvent) : (u.eraseUntil samples mmaps tasks).trace = u.trace := by
  unfold eraseUntil countFlush
  dsimp only
  split <;> rfl

/-- **What a flush sends**: nothing after a sample it leaves, but for what is due at the end. -/
theorem sent_flushEventBuffer (u : PerfUnwind σ) (desired : UInt32) {g : Flush σ} {left : List PerfRecordSample}
    (hg : sampleLoop B desired (u.startFlush B) (u.startFlush B).unwind.sampleBuffer = (g, left)) :
    (u.flushEventBuffer B desired).sampleBuffer = left ∧
    ∃ l, sent (u.flushEventBuffer B desired).trace = sent u.trace ++ (l ++
        if u.stats.enabled then [] else due desired g.unwind.eventBufferSize g.taskEventIt) ∧
      ∀ e ∈ l, ∀ s ∈ left, ¬s.time < e.time := by
  obtain ⟨htrace, hstats, -⟩ := startFlush_sent (B := B) u
  have hsettings := settings_sampleLoop (B := B) desired (u.startFlush B) (u.startFlush B).unwind.sampleBuffer
  have hsorted : Sorted (fun s : PerfRecordSample => s.time) (u.startFlush B).unwind.sampleBuffer := by
    rw [(startFlush_sorted u).samples]
    exact StableSort.sortBy_sorted _ _
  obtain ⟨l, hl, hleft⟩ := sent_sampleLoop (B := B) desired (u.startFlush B) hsorted
  rw [hg] at hsettings hl hleft
  have hcore := flushEventBuffer_core (B := B) u desired
  have htrailing := sent_trailingLoop (B := B) desired (g.leave desired) g.taskEventIt
  have hflush : (u.flushEventBuffer B desired).trace =
    (trailingLoop B desired (g.leave desired) g.taskEventIt).1.trace := by
    refine (congrArg Core.trace hcore).trans ?_
    rw [flushLoops, hg]
    exact eraseUntil_trace _ _ _ _
  refine ⟨?_, l, ?_, hleft⟩
  · refine (congrArg Core.samples hcore).trans ?_
    rw [flushLoops, hg]
    rfl
  · rw [hflush, htrailing]
    rw [show (g.leave desired).stats = g.unwind.stats from rfl, stats_of_settings hsettings, hstats]
    rw [show (g.leave desired).eventBufferSize = g.unwind.eventBufferSize from rfl]
    rw [show (g.leave desired).trace = g.unwind.trace ++ _ from rfl, sent_append, hl, htrace]
    simp [sent, Entry.sent?]

theorem startFlush_running {u : PerfUnwind σ} (hb : u.Balanced) :
    (u.startFlush B).Running (u.startFlush B).unwind.sampleBuffer where
  mmaps := by rw [(startFlush_sorted u).mmaps]; exact StableSort.sortBy_sorted _ _
  tasks := by rw [(startFlush_sorted u).tasks]; exact StableSort.sortBy_sorted _ _
  accounted := startFlush_accounted hb

theorem Stops.congr {violated violated' : Prop} (h : violated ↔ violated') {last : UInt64} {desired : UInt32}
    {mmaps : List PerfRecordMmap} {tasks : List TaskEvent} {late : List PerfRecordSample} {s : PerfRecordSample}
    {rest : List PerfRecordSample} :
    Stops violated last desired mmaps tasks late s rest ↔ Stops violated' last desired mmaps tasks late s rest := by
  rw [propext h]

theorem FlushCall.sends_eq {call : FlushCall σ} {l : List TaskEvent}
    (h : sent (call.result B).trace = sent call.unwind.trace ++ l) : call.sends B = l := by
  rw [FlushCall.sends, h, List.drop_left]

/-- What is left and due where the loop over the samples stops. -/
theorem FlushCall.dueAfter_of_stops {call : FlushCall σ} (hb : call.unwind.Balanced)
    {late : List PerfRecordSample} {s : PerfRecordSample} {rest : List PerfRecordSample}
    (hsplit : call.unwind.sortBuffers.sampleBuffer = late ++ s :: rest)
    (hstops : Stops (∃ m ∈ call.unwind.mmapBuffer, m.time < call.unwind.lastFlushMaxTime) call.unwind.lastFlushMaxTime
      call.desiredBufferSize call.unwind.sortBuffers.mmapBuffer call.unwind.sortBuffers.taskEventsBuffer late s rest)
    {g : Flush σ} {left : List PerfRecordSample}
    (hg : sampleLoop B call.desiredBufferSize (call.unwind.startFlush B)
      (call.unwind.startFlush B).unwind.sampleBuffer = (g, left)) :
    left = s :: rest ∧ due call.desiredBufferSize g.unwind.eventBufferSize g.taskEventIt =
      call.dueAfter late (s :: rest) := by
  have hsorted := startFlush_sorted (B := B) call.unwind
  have hrun := startFlush_running (B := B) hb
  rw [hsorted.samples.trans hsplit] at hrun hg
  obtain ⟨-, -, hlast⟩ := startFlush_sent (B := B) call.unwind
  have hloop := sampleLoop_stops (B := B) call.desiredBufferSize late (call.unwind.startFlush B) hrun (by
    rw [Stops.congr (startFlush_violates call.unwind), hlast, hsorted.mmaps, hsorted.tasks]
    exact hstops)
  have hacc := sampleLoop_accounted (B := B) call.desiredBufferSize (call.unwind.startFlush B) _ hrun.accounted
  rw [hg] at hloop hacc
  obtain ⟨rfl, hmmaps, htasks⟩ := hloop
  rw [hlast, hsorted.mmaps] at hmmaps
  rw [hsorted.tasks] at htasks
  refine ⟨rfl, ?_⟩
  rw [show g.unwind.eventBufferSize = _ from hacc, hmmaps, htasks]
  rfl

theorem FlushCall.stops_of_left {call : FlushCall σ} (hb : call.unwind.Balanced) {g : Flush σ} {s : PerfRecordSample}
    {rest : List PerfRecordSample} (hg : sampleLoop B call.desiredBufferSize (call.unwind.startFlush B)
      (call.unwind.startFlush B).unwind.sampleBuffer = (g, s :: rest))
    (hsize : call.desiredBufferSize < g.unwind.eventBufferSize) :
    ∃ late, call.unwind.sortBuffers.sampleBuffer = late ++ s :: rest ∧
      Stops (∃ m ∈ call.unwind.mmapBuffer, m.time < call.unwind.lastFlushMaxTime) call.unwind.lastFlushMaxTime
        call.desiredBufferSize call.unwind.sortBuffers.mmapBuffer call.unwind.sortBuffers.taskEventsBuffer late s
        rest := by
  have hsorted := startFlush_sorted (B := B) call.unwind
  obtain ⟨-, -, hlast⟩ := startFlush_sent (B := B) call.unwind
  obtain ⟨late, hsplit, hstops⟩ := stops_of_sampleLoop (B := B) call.desiredBufferSize (call.unwind.startFlush B)
    (by rw [hsorted.samples]; exact StableSort.sortBy_sorted _ _) (startFlush_running (B := B) hb)
    (congrArg Prod.snd hg) (by rw [hg]; exact hsize)
  rw [Stops.congr (startFlush_violates call.unwind), hlast, hsorted.mmaps, hsorted.tasks] at hstops
  exact ⟨late, hsorted.samples.symm.trans hsplit, hstops⟩

theorem lt_of_due {desired size : UInt32} {tasks : List TaskEvent} {e : TaskEvent} (h : e ∈ due desired size tasks) :
    desired < size := by
  cases tasks with
  | nil => cases h
  | cons e' tasks =>
    unfold due at h
    split at h
    · rename_i hsize
      exact hsize
    · cases h

/-- **A flush sends in time exactly where no task event that is due overtakes the sample it stops at.** -/
theorem FlushCall.inTime_iff {call : FlushCall σ} (hb : call.unwind.Balanced) :
    call.InTime B ↔ ¬call.Overtakes := by
  cases hg : sampleLoop B call.desiredBufferSize (call.unwind.startFlush B)
      (call.unwind.startFlush B).unwind.sampleBuffer with
  | mk g left =>
    obtain ⟨hleft, l, hsent, hbefore⟩ := sent_flushEventBuffer (B := B) call.unwind call.desiredBufferSize hg
    unfold FlushCall.InTime
    rw [FlushCall.sends_eq hsent, show (call.result B).sampleBuffer = left from hleft]
    constructor
    · rintro hin ⟨hstats, late, s, rest, hsplit, hstops, e, he, hlt⟩
      obtain ⟨rfl, hdue⟩ := FlushCall.dueAfter_of_stops hb hsplit hstops hg
      refine hin e (List.mem_append_right l ?_) s List.mem_cons_self hlt
      rw [hstats, if_neg Bool.false_ne_true, hdue]
      exact he
    · intro hnot e he s hs hlt
      rcases List.mem_append.1 he with he | he
      · exact hbefore e he s hs hlt
      · cases hstats : call.unwind.stats.enabled with
        | true =>
          rw [hstats, if_pos rfl] at he
          cases he
        | false =>
          rw [hstats, if_neg Bool.false_ne_true] at he
          cases left with
          | nil => cases hs
          | cons s' rest =>
            obtain ⟨late, hsplit, hstops⟩ := FlushCall.stops_of_left hb hg (lt_of_due he)
            obtain ⟨-, hdue⟩ := FlushCall.dueAfter_of_stops hb hsplit hstops hg
            have hsorted := StableSort.sortBy_sorted (fun s : PerfRecordSample => s.time) call.unwind.sampleBuffer
            rw [show sortBy (fun s : PerfRecordSample => s.time) call.unwind.sampleBuffer = _ from hsplit] at hsorted
            -- the sample it stops at is the first of those it leaves
            have hfirst : s'.time ≤ s.time := by
              rcases List.mem_cons.1 hs with rfl | hs
              · exact Std.le_refl _
              · exact List.rel_of_pairwise_cons (List.pairwise_append.1 hsorted).2.1 hs
            exact hnot ⟨hstats, late, s', rest, hsplit, hstops, e, hdue ▸ he, Std.lt_of_le_of_lt hfirst hlt⟩

/-! ## The flushes of a run -/

/-- The flush that an event buffered makes necessary. -/
def bufferFlushes (u : PerfUnwind σ) (event : Event) : List (FlushCall σ) :=
  let u := u.enqueue event
  if u.targetEventBufferSize ≠ 0 ∧ u.eventBufferSize > u.targetEventBufferSize then
    [⟨u, u.targetEventBufferSize / 2⟩]
  else []

/-- The flush of a round without a buffer of our own. -/
def roundFlushes (u : PerfUnwind σ) : List (FlushCall σ) :=
  let u := if u.stats.enabled then { u with stats := u.stats.finishedRound } else u
  if u.targetEventBufferSize = 0 then [⟨u, u.eventBufferSize / 2⟩] else []

variable (B) in
/-- The string of a command is resolved before the event is buffered. -/
def interned (u : PerfUnwind σ) : Op → PerfUnwind σ
  | .comm comm => (u.resolveString B comm.comm).1
  | _ => u

variable (B) in
/-- The calls of `flushEventBuffer` that an operation makes, in order. -/
def flushes (u : PerfUnwind σ) (op : Op) : List (FlushCall σ) :=
  match u.event? B op with
  | some event => (u.interned B op).bufferFlushes event
  | none =>
    match op with
    | .finishedRound => u.roundFlushes
    | .finalize => u.roundFlushes ++ [⟨u.finishedRound B, 0⟩]
    | _ => []

variable (B) in
/-- The calls of `flushEventBuffer` that a run makes, in order. -/
def runFlushes (u : PerfUnwind σ) : List Op → List (FlushCall σ)
  | [] => []
  | op :: ops => u.flushes B op ++ runFlushes (u.apply B op) ops

theorem FlushCall.sent_result (call : FlushCall σ) :
    sent (call.result B).trace = sent call.unwind.trace ++ call.sends B := by
  obtain ⟨-, l, hsent, -⟩ := sent_flushEventBuffer (B := B) call.unwind call.desiredBufferSize rfl
  rw [FlushCall.sends_eq hsent]
  exact hsent

theorem sent_enqueue (u : PerfUnwind σ) (event : Event) : sent (u.enqueue event).trace = sent u.trace := by
  unfold enqueue append
  cases event <;> dsimp only <;> split <;> simp

theorem sent_bufferEvent (u : PerfUnwind σ) (event : Event) : sent (u.bufferEvent B event).trace =
    sent u.trace ++ (u.bufferFlushes event).flatMap (fun call => call.sends B) := by
  unfold bufferEvent bufferFlushes
  dsimp only
  split
  · rw [List.flatMap_singleton, ← sent_enqueue u event]
    exact FlushCall.sent_result ⟨u.enqueue event, (u.enqueue event).targetEventBufferSize / 2⟩
  · rw [List.flatMap_nil, List.append_nil, sent_enqueue]

theorem sent_quiets {u v : PerfUnwind σ} (hq : Quiets B u v) : sent v.trace = sent u.trace := by
  induction hq with
  | refl => rfl
  | @tail v w _ hq ih =>
    rw [← ih]
    cases hq with
    | note x hx => rw [call, sent_append, (called_of_note hx _ _).2.2, List.append_nil]
    | resolve string => rfl
    | setMax size => exact congrArg (fun c => sent (Core.trace c)) (core_setMaxEventBufferSize v size)
    | setTarget size => exact congrArg (fun c => sent (Core.trace c)) (core_setTargetEventBufferSize v size)
    | register registry => rfl
    | round => rfl

theorem sent_finishedRound (u : PerfUnwind σ) : sent (u.finishedRound B).trace =
    sent u.trace ++ u.roundFlushes.flatMap (fun call => call.sends B) := by
  have htrace : sent (if u.stats.enabled then { u with stats := u.stats.finishedRound } else u).trace = sent u.trace := by
    split <;> rfl
  unfold finishedRound roundFlushes
  dsimp only
  generalize (if u.stats.enabled then { u with stats := u.stats.finishedRound } else u) = v at *
  rw [← htrace]
  split
  · rw [List.flatMap_singleton]
    exact FlushCall.sent_result ⟨v, v.eventBufferSize / 2⟩
  · rw [List.flatMap_nil, List.append_nil]
    split
    · exact congrArg (fun c => sent (Core.trace c)) (core_setTargetEventBufferSize v 0)
    · rfl

/-- **Every task event is sent in one of these calls**, in an operation … -/
theorem sent_apply (u : PerfUnwind σ) (op : Op) : sent (u.apply B op).trace =
    sent u.trace ++ (u.flushes B op).flatMap (fun call => call.sends B) := by
  have hquiet : ∀ {v : PerfUnwind σ}, Quiets B u v → sent v.trace = sent u.trace ++ [] := by
    intro v hq
    rw [sent_quiets hq, List.append_nil]
  cases op with
  | comm comm => exact sent_bufferEvent (u.resolveString B comm.comm).1 _
  | registerElf => exact sent_bufferEvent u _
  | lost => exact sent_bufferEvent u _
  | sample => exact sent_bufferEvent u _
  | fork => exact sent_bufferEvent u _
  | exit => exact sent_bufferEvent u _
  | contextSwitch => exact sent_bufferEvent u _
  | finishedRound => exact sent_finishedRound u
  | finalize =>
    have hround := sent_finishedRound (B := B) u
    rw [show u.flushes B .finalize = u.roundFlushes ++ [⟨u.finishedRound B, 0⟩] from rfl, List.flatMap_append,
      List.flatMap_singleton, ← List.append_assoc, ← hround]
    exact FlushCall.sent_result ⟨u.finishedRound B, 0⟩
  | attr attr => exact hquiet (addAttributes_quiets u attr.attr attr.attr.name attr.ids)
  | features features => exact hquiet (features_quiets u features)
  | tracing tracingData => exact hquiet (tracing_quiets u tracingData)
  | setMaxEventBufferSize size => exact hquiet (.single (.setMax u size))
  | setTargetEventBufferSize size => exact hquiet (.single (.setTarget u size))

/-- … and in a run. -/
theorem sent_run : ∀ (ops : List Op) (u : PerfUnwind σ), sent (u.run B ops).trace =
    sent u.trace ++ (u.runFlushes B ops).flatMap (fun call => call.sends B)
  | [], u => (List.append_nil _).symm
  | op :: ops, u => by
    rw [runFlushes, List.flatMap_append, ← List.append_assoc, ← sent_apply]
    exact sent_run ops (u.apply B op)

theorem flushes_balanced {u : PerfUnwind σ} (hb : u.Balanced) (op : Op) :
    ∀ call ∈ u.flushes B op, call.unwind.Balanced := by
  have hbuffer : ∀ (v : PerfUnwind σ) (event : Event), v.Balanced →
    ∀ call ∈ v.bufferFlushes event, call.unwind.Balanced := by
    intro v event hv call hcall
    unfold bufferFlushes at hcall
    dsimp only at hcall
    split at hcall
    · rw [List.mem_singleton.1 hcall]
      exact enqueue_balanced hv event
    · cases hcall
  have hround : ∀ call ∈ u.roundFlushes, call.unwind.Balanced := by
    have hstats : (if u.stats.enabled then { u with stats := u.stats.finishedRound } else u).Balanced := by
      split <;> exact hb
    intro call hcall
    unfold roundFlushes at hcall
    dsimp only at hcall
    generalize (if u.stats.enabled then { u with stats := u.stats.finishedRound } else u) = v at *
    split at hcall
    · rw [List.mem_singleton.1 hcall]
      exact hstats
    · cases hcall
  unfold flushes
  cases hevent : u.event? B op with
  | some event =>
    refine hbuffer _ event ?_
    cases op <;> exact hb
  | none =>
    cases op with
    | finishedRound => exact hround
    | finalize =>
      intro call hcall
      rcases List.mem_append.1 hcall with hcall | hcall
      · exact hround call hcall
      · rw [List.mem_singleton.1 hcall]
        exact finishedRound_balanced hb
    | _ => exact fun call hcall => (List.not_mem_nil hcall).elim

theorem runFlushes_balanced : ∀ (ops : List Op) {u : PerfUnwind σ}, u.Balanced →
    ∀ call ∈ u.runFlushes B ops, call.unwind.Balanced
  | [], _, _, call, hcall => (List.not_mem_nil hcall).elim
  | op :: ops, u, hb, call, hcall => by
    rcases List.mem_append.1 hcall with hcall | hcall
    · exact flushes_balanced hb op call hcall
    · exact runFlushes_balanced ops (run_balanced [op] hb) call hcall

theorem configured_balanced (back : σ) (printStats : Bool) (targetSize maxSize : UInt32) :
    (configured back printStats targetSize maxSize).Balanced := by
  have hstart : ({ back := back, stats := { enabled := printStats } } : PerfUnwind σ).Balanced := rfl
  have htarget := balanced_of_core (core_setTargetEventBufferSize _ targetSize)
    (setTargetEventBufferSize_keeps _ targetSize).2.2 hstart
  exact balanced_of_core (core_setMaxEventBufferSize _ maxSize) (setMaxEventBufferSize_keeps _ maxSize).2.2 htarget

/-- **The flushes of a run send in time exactly as long as no task event overtakes the sample that one stops at.** -/
theorem run_inTime_iff (B : Backend σ) (back : σ) (printStats : Bool) (targetSize maxSize : UInt32) (ops : List Op) :
    (∀ call ∈ (configured back printStats targetSize maxSize).runFlushes B ops, call.InTime B) ↔
      ∀ call ∈ (configured back printStats targetSize maxSize).runFlushes B ops, ¬call.Overtakes := by
  have hb := runFlushes_balanced (B := B) ops (configured_balanced back printStats targetSize maxSize)
  exact forall₂_congr fun call hcall => FlushCall.inTime_iff (hb call hcall)

/-- A task event at 30 is sent after the sample at 5 made the flush stop at the one at 20. -/
theorem run_not_inTime : ¬∀ ops : List Op,
    ∀ call ∈ (configured () false 0 1073741824).runFlushes discard ops, call.InTime discard := by
  intro h
  have hlate := h [.sample (sampleAt 10), .finishedRound, .sample (sampleAt 5), .sample (sampleAt 20), exitOp 30 1,
    .finishedRound]
  revert hlate
  decide

end PerfUnwind

end PerfParser
