import PerfParser.UnwindCalm
/-!
# UnwindWritten — the times of the records that are written

Every sample that is analysed and every task event that is sent makes one record with its time.  While no violation is
counted these records are in order exactly as long as no sample or task event arrives later than a record with a later
time was written: a flush itself writes what waits in order, and leaves nothing behind that is earlier than what it wrote
(`flushEventBuffer_chronological`).
-/
namespace PerfParser

open StableSort (sortBy)
open History (Always)
open PerfUnwind (Sorted)

/-! ## Reading the trace -/

def Entry.written? {σ : Type} : Entry σ → Option UInt64
  | .call _ _ (.analyze s) => some s.time
  | .call _ _ (.sendTaskEvent e) => some e.time
  | _ => none

/-- The times of the records with a time, in the order in which they are written. -/
def written {σ : Type} (trace : List (Entry σ)) : List UInt64 := trace.filterMap Entry.written?

/-- A sample or a task event arrives no earlier than the records written before it. -/
def Timely {σ : Type} (pre : List (Entry σ)) : Entry σ → Prop
  | .arrived (.sample s) => ∀ t ∈ written pre, t ≤ s.time
  | .arrived (.task e) => ∀ t ∈ written pre, t ≤ e.time
  | _ => True

instance {σ : Type} (pre : List (Entry σ)) : (x : Entry σ) → Decidable (Timely pre x)
  | .arrived (.sample s) => List.decidableBAll (fun t => t ≤ s.time) (written pre)
  | .arrived (.task e) => List.decidableBAll (fun t => t ≤ e.time) (written pre)
  | .arrived (.mmap _) | .trailing .. | .call .. => inferInstanceAs (Decidable True)

section Trace

variable {σ : Type}

@[simp] theorem written_nil : written ([] : List (Entry σ)) = [] := rfl

@[simp] theorem written_append (t t' : List (Entry σ)) : written (t ++ t') = written t ++ written t' :=
  List.filterMap_append ..

@[simp] theorem written_arrived (event : Event) (t : List (Entry σ)) : written (.arrived event :: t) = written t := rfl

@[simp] theorem written_trailing (waiting : List TaskEvent) (size desired : UInt32) (t : List (Entry σ)) :
    written (.trailing waiting size desired :: t) = written t := rfl

@[simp] theorem written_call (last : UInt64) (b : σ) (x : Call) (t : List (Entry σ)) :
    written (.call last b x :: t) =
      (match x with | .analyze s => [s.time] | .sendTaskEvent e => [e.time] | _ => []) ++ written t := by
  cases x <;> rfl

theorem written_of_note {x : Call} (hx : x.isNote = true) (last : UInt64) (b : σ) :
    written [Entry.call last b x] = [] := by
  cases x <;> first | rfl | cases hx

theorem always_timely_append {l t : List (Entry σ)} (h : Always Timely l) (ht : arrivals t = []) :
    Always Timely (l ++ t) := by
  refine History.always_append h (fun pre x post hx => ?_)
  cases x with
  | arrived event => simp [hx, Entry.arrived?] at ht
  | trailing waiting size desired => trivial
  | call last b x => trivial

end Trace

/-! ## What is written and what waits -/

/-- Records written in order, and samples and task events that wait behind them. -/
structure Behind (times : List UInt64) (samples : List PerfRecordSample) (tasks : List TaskEvent) : Prop where
  sorted : times.Pairwise (· ≤ ·)
  samples : ∀ s ∈ samples, ∀ t ∈ times, t ≤ s.time
  tasks : ∀ e ∈ tasks, ∀ t ∈ times, t ≤ e.time

namespace Behind

variable {times : List UInt64} {samples : List PerfRecordSample} {tasks : List TaskEvent}

/-- A time that is written after the others and before what waits. -/
theorem write {t : UInt64} (h : Behind times samples tasks) (ht : ∀ t' ∈ times, t' ≤ t)
    (hsamples : ∀ s ∈ samples, t ≤ s.time) (htasks : ∀ e ∈ tasks, t ≤ e.time) :
    Behind (times ++ [t]) samples tasks where
  sorted := List.pairwise_append.2 ⟨h.sorted, List.pairwise_singleton _ _, fun a ha b hb => by
    rw [List.mem_singleton.1 hb]
    exact ht a ha⟩
  samples s hs t' ht' := by
    rcases List.mem_append.1 ht' with ht' | ht'
    · exact h.samples s hs t' ht'
    · rw [List.mem_singleton.1 ht']
      exact hsamples s hs
  tasks e he t' ht' := by
    rcases List.mem_append.1 ht' with ht' | ht'
    · exact h.tasks e he t' ht'
    · rw [List.mem_singleton.1 ht']
      exact htasks e he

/-- The first task event is written when no sample waits before it. -/
theorem writeTask {e : TaskEvent} (h : Behind times samples (e :: tasks)) (htasks : Sorted TaskEvent.time (e :: tasks))
    (hsamples : ∀ s ∈ samples, e.time ≤ s.time) : Behind (times ++ [e.time]) samples tasks :=
  Behind.write ⟨h.sorted, h.samples, fun e' he' => h.tasks e' (List.mem_cons_of_mem _ he')⟩
    (h.tasks e List.mem_cons_self) hsamples (fun _ he' => List.rel_of_pairwise_cons htasks he')

/-- The first sample is written when the task events before it are. -/
theorem writeSample {s : PerfRecordSample} (h : Behind times (s :: samples) tasks)
    (hsamples : Sorted (fun s : PerfRecordSample => s.time) (s :: samples)) (htasks : ∀ e ∈ tasks, s.time < e.time) :
    Behind (times ++ [s.time]) samples tasks :=
  Behind.write ⟨h.sorted, fun s' hs' => h.samples s' (List.mem_cons_of_mem _ hs'), h.tasks⟩
    (h.samples s List.mem_cons_self) (fun _ hs' => List.rel_of_pairwise_cons hsamples hs')
    (fun e he => Std.le_of_lt (htasks e he))

end Behind

/-- What is written is in order, and nothing that waits is earlier. -/
def Core.Chronological {σ : Type} (c : Core σ) : Prop := Behind (written c.trace) c.samples c.tasks

namespace PerfUnwind

open PerfParser.Core

variable {σ : Type} {B : Backend σ}

/-! ## The loops write in order -/

theorem written_callUnlessStats {u : PerfUnwind σ} (h : u.stats.enabled = false) (x : Call) :
    written (u.callUnlessStats B x).trace = written u.trace ++ written [Entry.call u.lastFlushMaxTime u.back x] := by
  simp only [callUnlessStats, h, Bool.false_eq_true, if_false, call, written_append]

theorem written_forwardMmapBuffer (t : UInt64) : ∀ {u : PerfUnwind σ} (mmaps : List PerfRecordMmap),
    u.stats.enabled = false → written (forwardMmapBuffer B t u mmaps).1.trace = written u.trace
  | u, [], _ => rfl
  | u, m :: mmaps, h => by
    unfold forwardMmapBuffer
    split
    · rw [written_forwardMmapBuffer t mmaps (by rw [stats_of_frame (frame_forwardMmap u m), h])]
      exact (written_callUnlessStats h _).trans (List.append_nil _)
    · rfl

theorem written_beforeSend {u : PerfUnwind σ} (h : u.stats.enabled = false) (mmaps : List PerfRecordMmap)
    (e : TaskEvent) : written (u.beforeSend B mmaps e).1.trace = written u.trace := by
  unfold beforeSend
  cases e.forkedFrom with
  | some parentPid =>
    have hforward := written_forwardMmapBuffer (B := B) e.time mmaps h
    simpa [call] using hforward
  | none => cases e.endsProcess <;> simp [call]

theorem written_processTask {u : PerfUnwind σ} (h : u.stats.enabled = false) (mmaps : List PerfRecordMmap)
    (e : TaskEvent) : written (u.processTask B mmaps e).1.trace = written u.trace ++ [e.time] := by
  rw [processTask_of_stats h, ← written_beforeSend (B := B) h mmaps e]
  simp [call]

/-- The task events before a sample. -/
theorem processTasks_behind {t : UInt64} {samples : List PerfRecordSample} (hsamples : ∀ s ∈ samples, t ≤ s.time) :
    ∀ {u : PerfUnwind σ} (mmaps : List PerfRecordMmap) {tasks : List TaskEvent}, u.stats.enabled = false →
      Sorted TaskEvent.time tasks → Behind (written u.trace) samples tasks →
      Behind (written (processTasks B t u mmaps tasks).1.trace) samples (processTasks B t u mmaps tasks).2.2
  | u, mmaps, [], _, _, h => h
  | u, mmaps, e :: es, hstats, htasks, h => by
    unfold processTasks
    split
    · rename_i he
      have hstats' : (u.processTask B mmaps e).1.stats.enabled = false := by
        rw [stats_of_frame (frame_processTask u mmaps e), hstats]
      have hwrite := h.writeTask htasks (fun s hs => Std.le_trans he (hsamples s hs))
      rw [← written_processTask (B := B) hstats mmaps e] at hwrite
      exact processTasks_behind hsamples (u := (u.processTask B mmaps e).1) _ hstats' htasks.of_cons hwrite
    · exact h

/-- A sample with the task events before it. -/
theorem processSample_behind {f : Flush σ} (hf : f.Ready) {s : PerfRecordSample} {samples : List PerfRecordSample}
    (hsamples : Sorted (fun s : PerfRecordSample => s.time) (s :: samples))
    (h : Behind (written f.unwind.trace) (s :: samples) f.taskEventIt) :
    Behind (written (processSample B f s).unwind.trace) samples (processSample B f s).taskEventIt := by
  have hle : ∀ s' ∈ s :: samples, s.time ≤ s'.time := by
    intro s' hs'
    rcases List.mem_cons.1 hs' with rfl | hs'
    · exact Std.le_refl _
    · exact List.rel_of_pairwise_cons hsamples hs'
  have htasks := processTasks_behind (B := B) (t := s.time) hle f.mmapIt hf.stats hf.tasks h
  have hafter := lt_of_mem_processTasks (B := B) (t := s.time) f.unwind f.mmapIt hf.tasks
  have hstats : (processTasks B s.time f.unwind f.mmapIt f.taskEventIt).1.stats.enabled = false := by
    rw [stats_of_frame (frame_processTasks s.time f.unwind f.mmapIt f.taskEventIt), hf.stats]
  unfold processSample
  generalize processTasks B s.time f.unwind f.mmapIt f.taskEventIt = p at *
  obtain ⟨u, mmaps, tasks⟩ := p
  have hforward := written_forwardMmapBuffer (B := B) s.time mmaps hstats
  have hstats' : (forwardMmapBuffer B s.time u mmaps).1.stats.enabled = false := by
    rw [stats_of_frame (frame_forwardMmapBuffer s.time u mmaps), hstats]
  have hwritten : written ((forwardMmapBuffer B s.time u mmaps).1.callUnlessStats B (.analyze s)).trace =
      written u.trace ++ [s.time] := by
    rw [written_callUnlessStats hstats', hforward]
    rfl
  have hresult : Behind (written u.trace ++ [s.time]) samples tasks := htasks.writeSample hsamples hafter
  rw [← hwritten] at hresult
  exact hresult

/-- The loop over the samples, where it violates no time order. -/
theorem sampleLoop_behind (desired : UInt32) : ∀ {f : Flush σ} {samples : List PerfRecordSample}, f.Ready →
    Sorted (fun s : PerfRecordSample => s.time) samples → Behind (written f.unwind.trace) samples f.taskEventIt →
    (sampleLoop B desired f samples).1.violatesTimeOrder = false →
    Behind (written (sampleLoop B desired f samples).1.unwind.trace) (sampleLoop B desired f samples).2
      (sampleLoop B desired f samples).1.taskEventIt
  | f, [], _, _, h, _ => h
  | f, s :: samples, hf, hsamples, h, hv => by
    unfold sampleLoop at hv ⊢
    split
    · rename_i hsize
      rw [if_pos hsize] at hv
      split
      · rename_i hlt
        rw [if_pos hlt, violates_sampleLoop desired _ samples rfl] at hv
        cases hv
      · rename_i hlt
        rw [if_neg hlt] at hv
        split
        · rename_i hviolates
          rw [if_pos hviolates] at hv
          exact absurd hviolates (by rw [show f.violatesTimeOrder = false from hv]; exact Bool.false_ne_true)
        · rename_i hviolates
          rw [if_neg hviolates] at hv
          have hready : ({ f with unwind := { f.unwind with lastFlushMaxTime := s.time } } : Flush σ).Ready :=
            ⟨hf.stats, hf.mmaps, hf.tasks⟩
          exact sampleLoop_behind desired (processSample_ready hready s) hsamples.of_cons
            (processSample_behind hready hsamples h) hv
    · exact h

/-- The loop over the task events left, where no sample is. -/
theorem trailingLoop_behind (desired : UInt32) : ∀ {u : PerfUnwind σ} {tasks : List TaskEvent},
    u.stats.enabled = false → Sorted TaskEvent.time tasks → Behind (written u.trace) [] tasks →
    Behind (written (trailingLoop B desired u tasks).1.trace) [] (trailingLoop B desired u tasks).2
  | u, [], _, _, h => h
  | u, e :: tasks, hstats, htasks, h => by
    unfold trailingLoop
    split
    · refine trailingLoop_behind desired
        (u := { u.callUnlessStats B (.sendTaskEvent e) with
          eventBufferSize := (u.callUnlessStats B (.sendTaskEvent e)).eventBufferSize - e.size })
        (by rw [stats_of_frame (frame_eventBufferSize _ _), stats_of_frame (frame_callUnlessStats u _), hstats])
        htasks.of_cons ?_
      have hwritten : written (u.callUnlessStats B (.sendTaskEvent e)).trace = written u.trace ++ [e.time] :=
        written_callUnlessStats hstats _
      rw [hwritten]
      exact h.writeTask htasks (fun s hs => absurd hs List.not_mem_nil)
    · exact h

theorem trailingLoop_of_size {desired : UInt32} {u : PerfUnwind σ} (h : ¬u.eventBufferSize > desired) :
    ∀ tasks : List TaskEvent, trailingLoop B desired u tasks = (u, tasks)
  | [] => rfl
  | e :: tasks => by
    unfold trailingLoop
    rw [if_neg h]

/-! ## A flush -/

theorem startFlush_behind {u : PerfUnwind σ} (h : u.stats.enabled = false) (hc : u.core.Chronological) :
    Behind (written (u.startFlush B).unwind.trace) (u.startFlush B).unwind.sampleBuffer (u.startFlush B).taskEventIt := by
  have hsort : Behind (written u.trace) (sortBy (fun s : PerfRecordSample => s.time) u.sampleBuffer)
      (sortBy TaskEvent.time u.taskEventsBuffer) :=
    ⟨hc.sorted, fun s hs => hc.samples s ((StableSort.mem_sortBy _ _ s).1 hs),
      fun e he => hc.tasks e ((StableSort.mem_sortBy _ _ e).1 he)⟩
  rw [startFlush_of_stats h]
  cases u.sortBuffers.violatingMmap with
  | none => exact hsort
  | some m =>
    refine Eq.subst (motive := fun times => Behind times _ _) ?_ hsort
    simp [call]
    rfl

/-- **A flush that violates no time order writes in order**, and leaves nothing that is earlier than what it wrote. -/
theorem flushEventBuffer_chronological {u : PerfUnwind σ} (h : u.stats.enabled = false) {desired : UInt32}
    (hv : u.violates B desired = false) (hc : u.core.Chronological) :
    (u.flushEventBuffer B desired).core.Chronological := by
  have hready := startFlush_ready (B := B) h
  have hsamples : Sorted (fun s : PerfRecordSample => s.time) (u.startFlush B).unwind.sampleBuffer := by
    rw [startFlush_sampleBuffer h]
    exact StableSort.sortBy_sorted _ _
  have hloop := sampleLoop_behind (B := B) desired hready hsamples (startFlush_behind h hc) hv
  have hends := sampleLoop_ends (B := B) desired (u.startFlush B) (u.startFlush B).unwind.sampleBuffer
  have hsettings := settings_sampleLoop (B := B) desired (u.startFlush B) (u.startFlush B).unwind.sampleBuffer
  have htasks := sampleLoop_suffix (B := B) desired (u.startFlush B) (u.startFlush B).unwind.sampleBuffer
  rw [flushEventBuffer_core]
  unfold violates at hv
  unfold flushLoops at hv ⊢
  have hsorted := hready.tasks.sublist htasks.2.2.sublist
  generalize sampleLoop B desired (u.startFlush B) (u.startFlush B).unwind.sampleBuffer = g at *
  obtain ⟨g, samples⟩ := g
  have hstats : (g.leave desired).stats.enabled = false := by
    rw [show (g.leave desired).stats = g.unwind.stats from rfl, stats_of_settings hsettings, hready.stats]
  have hleave : Behind (written (g.leave desired).trace) samples g.taskEventIt := by
    simpa [Flush.leave] using! hloop
  have hframe := frame_trailingLoop (B := B) desired (g.leave desired) g.taskEventIt
  dsimp only at hv hends ⊢
  rw [eraseUntil_of_stats (by rw [stats_of_frame hframe, hstats])]
  rcases hends with rfl | hviolates | hsize
  · exact trailingLoop_behind desired hstats hsorted hleave
  · exact absurd hviolates (ne_true_of_eq_false hv)
  · rw [trailingLoop_of_size (show ¬(g.leave desired).eventBufferSize > desired from hsize)]
    exact hleave

/-! ## A run -/

theorem Quiet.chronological {u v : PerfUnwind σ} (hq : Quiet B u v) (hc : u.core.Chronological) :
    v.core.Chronological := by
  cases hq with
  | note x hx =>
    have hwritten : written (u.call B x).core.trace = written u.trace := by
      rw [show (u.call B x).core.trace = u.trace ++ [_] from rfl, written_append, written_of_note hx, List.append_nil]
    unfold Core.Chronological
    rw [hwritten]
    exact hc
  | resolve string => exact hc
  | setMax size => rwa [core_setMaxEventBufferSize]
  | setTarget size => rwa [core_setTargetEventBufferSize]
  | register registry => exact hc
  | round => exact hc

theorem Quiets.chronological {u v : PerfUnwind σ} (hq : Quiets B u v) (hc : u.core.Chronological) :
    v.core.Chronological := by
  induction hq with
  | refl => exact hc
  | tail _ hq ih => exact hq.chronological ih

/-- **A timely event waits behind what is written.** -/
theorem enqueue_chronological {u : PerfUnwind σ} (h : u.stats.enabled = false) {event : Event}
    (htimely : Timely u.trace (.arrived event)) (hc : u.core.Chronological) :
    (u.enqueue event).core.Chronological := by
  rw [(enqueue_of_stats h event).2.2]
  refine ⟨by simpa using hc.sorted, fun s hs t ht => ?_, fun e he t ht => ?_⟩
  · rw [arrive_trace, written_append, written_arrived, written_nil, List.append_nil] at ht
    rw [arrive_samples] at hs
    cases event with
    | sample s' =>
      rcases List.mem_append.1 hs with hs | hs
      · exact hc.samples s hs t ht
      · rw [List.mem_singleton.1 hs]
        exact htimely t ht
    | mmap m => exact hc.samples s hs t ht
    | task e => exact hc.samples s hs t ht
  · rw [arrive_trace, written_append, written_arrived, written_nil, List.append_nil] at ht
    rw [arrive_tasks] at he
    cases event with
    | task e' =>
      rcases List.mem_append.1 he with he | he
      · exact hc.tasks e he t ht
      · rw [List.mem_singleton.1 he]
        exact htimely t ht
    | mmap m => exact hc.tasks e he t ht
    | sample s => exact hc.tasks e he t ht

theorem apply_chronological {u : PerfUnwind σ} (h : u.stats.enabled = false) (op : Op)
    (h0 : u.timeOrderViolations = 0) (h0' : (u.apply B op).timeOrderViolations = 0)
    (htimely : Always Timely (u.apply B op).trace) (hc : u.core.Chronological) :
    (u.apply B op).core.Chronological := by
  obtain ⟨v, sizes, hq, hlen, he⟩ := apply_shape (B := B) u op
  obtain ⟨hs, hv, -⟩ := hq.steps true h
  obtain ⟨hs', hv', -⟩ := enqueueAll_moves (B := B) true (u.event? B op).toList hs
  obtain ⟨-, k, -, -, hsteps⟩ := flushAll_steps (B := B) sizes hs'
  obtain ⟨n, hn, hcount, hflush⟩ := flushAll_keeps (B := B) (P := fun u => u.core.Chronological)
    (fun h hv hc => flushEventBuffer_chronological h hv hc) sizes hs'
  rw [he, hcount, hv', hv, h0, UInt32.zero_add] at h0'
  have hzero := eq_zero_of_ofNat (Nat.le_trans hn hlen) h0'
  have henqueued : (v.enqueueAll (u.event? B op).toList).core.trace <+: (u.apply B op).trace := by
    rw [he]
    exact hsteps.moves.trace_prefix
  have htimely' := htimely.of_prefix henqueued
  have hquiet := Quiets.chronological hq hc
  rw [he]
  refine hflush hzero ?_
  cases hevent : u.event? B op with
  | none => exact hquiet
  | some event =>
    rw [hevent] at htimely'
    rw [show (v.enqueueAll (some event).toList).core.trace = (v.enqueue event).core.trace from rfl,
      (enqueue_of_stats hs event).2.2, arrive_trace] at htimely'
    exact enqueue_chronological hs (History.always_snoc.1 htimely').2 hquiet

theorem run_chronological : ∀ (ops : List Op) {u : PerfUnwind σ}, u.stats.enabled = false →
    (∀ pre, pre <+: ops → (u.run B pre).timeOrderViolations = 0) → Always Timely (u.run B ops).trace →
    u.core.Chronological → (u.run B ops).core.Chronological
  | [], _, _, _, _, hc => hc
  | op :: ops, u, h, h0, htimely, hc => by
    have hs := (apply_moves (B := B) h op).1
    obtain ⟨-, hmoves, -⟩ := run_moves (B := B) ops hs
    have hgrows : (u.apply B op).trace <+: (u.run B (op :: ops)).trace := hmoves.trace_prefix
    refine run_chronological ops hs (fun pre hpre => ?_) htimely
      (apply_chronological h op (h0 [] List.nil_prefix) (h0 [op] ⟨ops, rfl⟩) (htimely.of_prefix hgrows) hc)
    obtain ⟨post, rfl⟩ := hpre
    exact h0 (op :: pre) ⟨post, rfl⟩

end PerfUnwind

/-! ## An event that is not timely -/

namespace Core

variable {σ : Type} {B : Backend σ}

/-- Something that waits is earlier than something that is written, or was when it was written. -/
def Stale (c : Core σ) : Prop :=
  ¬(written c.trace).Pairwise (· ≤ ·) ∨ (∃ s ∈ c.samples, ∃ t ∈ written c.trace, s.time < t) ∨
    ∃ e ∈ c.tasks, ∃ t ∈ written c.trace, e.time < t

theorem not_sorted_of_mem {times times' : List UInt64} {t t' : UInt64} (ht : t ∈ times) (ht' : t' ∈ times')
    (hlt : t' < t) : ¬(times ++ times').Pairwise (· ≤ ·) :=
  fun h => UInt64.not_le.2 hlt ((List.pairwise_append.1 h).2.2 t ht t' ht')

/-- What waits and is earlier goes on waiting or is written out of order. -/
theorem Stale.grow {c c' : Core σ} (h : c.Stale) (t : List (Entry σ)) (ht : c'.trace = c.trace ++ t)
    (hsamples : ∀ s ∈ c.samples, s ∈ c'.samples ∨ s.time ∈ written t)
    (htasks : ∀ e ∈ c.tasks, e ∈ c'.tasks ∨ e.time ∈ written t) : c'.Stale := by
  have hwritten : written c'.trace = written c.trace ++ written t := by rw [ht, written_append]
  unfold Stale
  rw [hwritten]
  rcases h with h | ⟨s, hs, t', ht', hlt⟩ | ⟨e, he, t', ht', hlt⟩
  · exact .inl (fun hp => h (List.pairwise_append.1 hp).1)
  · rcases hsamples s hs with hs | hs
    · exact .inr (.inl ⟨s, hs, t', List.mem_append_left _ ht', hlt⟩)
    · exact .inl (not_sorted_of_mem ht' hs hlt)
  · rcases htasks e he with he | he
    · exact .inr (.inr ⟨e, he, t', List.mem_append_left _ ht', hlt⟩)
    · exact .inl (not_sorted_of_mem ht' he hlt)

theorem Stale.send {c c' : Core σ} (h : c.Stale) {e : TaskEvent} {es : List TaskEvent} (he : c.tasks = e :: es)
    (t : List (Entry σ)) (ht : c'.trace = c.trace ++ t) (hsamples : c'.samples = c.samples) (htasks : c'.tasks = es)
    (hwritten : e.time ∈ written t) : c'.Stale := by
  refine h.grow t ht (fun s hs => .inl (hsamples ▸ hs)) (fun e' he' => ?_)
  rw [he] at he'
  rcases List.mem_cons.1 he' with rfl | he'
  · exact .inr hwritten
  · exact .inl (htasks ▸ he')

theorem Step.stale {late : Bool} {c c' : Core σ} (h : Step B late c c') (hs : c.Stale) : c'.Stale := by
  cases h with
  | sort =>
    exact hs.grow [] (List.append_nil _).symm (fun s h => .inl ((StableSort.mem_sortBy _ _ s).2 h))
      (fun e h => .inl ((StableSort.mem_sortBy _ _ e).2 h))
  | note r x hx => exact hs.grow _ rfl (fun _ => .inl) (fun _ => .inl)
  | resolve string => exact hs
  | advance s hmem hlast => exact hs
  | forward r m ms id hm hlast htasks => exact hs.grow _ rfl (fun _ => .inl) (fun _ => .inl)
  | forked r r' e es parentPid he hf hlast hmmaps =>
    exact hs.send he _ (List.append_assoc _ _ _) rfl rfl (by simp)
  | ended r r' e es he hf hd hlast => exact hs.send he _ (List.append_assoc _ _ _) rfl rfl (by simp)
  | plain r e es he hf hd hlast => exact hs.send he [_] rfl rfl rfl (by simp)
  | analyze r s ss hss hlast hnow hmmaps htasks =>
    refine hs.grow [_] rfl (fun s' hs' => ?_) (fun _ => .inl)
    rw [hss] at hs'
    rcases List.mem_cons.1 hs' with rfl | hs'
    · exact .inr (by simp)
    · exact .inl hs'
  | leave size desired => exact hs.grow [_] rfl (fun _ => .inl) (fun _ => .inl)
  | trail r e es waiting size desired he hmark hdue => exact hs.send he [_] rfl rfl rfl (by simp)

theorem Step.timely {late : Bool} {c c' : Core σ} (h : Step B late c c') (ht : Always Timely c.trace) :
    Always Timely c'.trace := by
  have hmove : Move B late c c' := .step h
  obtain ⟨t, hp⟩ := hmove.trace_prefix
  have harrivals := h.arrivals
  rw [← hp, arrivals_append, List.append_right_eq_self] at harrivals
  rw [← hp]
  exact always_timely_append ht harrivals

/-- **An event that is not timely shows**: it waits behind a later record or is written after it. -/
theorem Move.timely_or_stale {late : Bool} {c c' : Core σ} (h : Move B late c c')
    (hc : Always Timely c.trace ∨ c.Stale) : Always Timely c'.trace ∨ c'.Stale := by
  cases h with
  | step h => exact hc.imp h.timely h.stale
  | arrive event =>
    have hwritten : written (c.arrive event).trace = written c.trace := by simp
    rcases hc with hc | hc
    · rw [arrive_trace, History.always_snoc]
      by_cases ht : Timely c.trace (.arrived event)
      · exact .inl ⟨hc, ht⟩
      · unfold Stale
        rw [hwritten]
        cases event with
        | sample s =>
          have ht : ∃ t ∈ written c.trace, s.time < t := by simpa [Timely] using ht
          exact .inr (.inr (.inl ⟨s, by simp, ht⟩))
        | mmap m => exact absurd trivial ht
        | task e =>
          have ht : ∃ t ∈ written c.trace, e.time < t := by simpa [Timely] using ht
          exact .inr (.inr (.inr ⟨e, by simp, ht⟩))
    · refine .inr (hc.grow [.arrived event] (arrive_trace c event) (fun s hs => .inl ?_) (fun e he => .inl ?_))
      · cases event <;> simp [hs]
      · cases event <;> simp [he]

end Core

namespace PerfUnwind

variable {σ : Type}

theorem create_chronological (back : σ) (lastSize maxSize targetSize : UInt32) :
    (create back lastSize maxSize targetSize).core.Chronological :=
  ⟨.nil, fun _ hs => absurd hs List.not_mem_nil, fun _ he => absurd he List.not_mem_nil⟩

/-- **What is written is in order in a run that counts no violation and whose samples and task events are timely**, and
where nothing is left to write only in such a run. -/
theorem written_sorted (B : Backend σ) (back : σ) (lastSize maxSize targetSize : UInt32) (ops : List Op)
    (h0 : ∀ pre, pre <+: ops → ((create back lastSize maxSize targetSize).run B pre).timeOrderViolations = 0) :
    (Always Timely ((create back lastSize maxSize targetSize).run B ops).trace →
      (written ((create back lastSize maxSize targetSize).run B ops).trace).Pairwise (· ≤ ·)) ∧
    (((create back lastSize maxSize targetSize).run B ops).sampleBuffer = [] →
      ((create back lastSize maxSize targetSize).run B ops).taskEventsBuffer = [] →
      (written ((create back lastSize maxSize targetSize).run B ops).trace).Pairwise (· ≤ ·) →
      Always Timely ((create back lastSize maxSize targetSize).run B ops).trace) := by
  refine ⟨fun htimely => ?_, fun hsamples htasks hsorted => ?_⟩
  · exact (run_chronological ops (u := create back lastSize maxSize targetSize) rfl h0 htimely
      (create_chronological back lastSize maxSize targetSize)).sorted
  · have hrun := run_invariant (B := B) Core.Move.timely_or_stale back lastSize maxSize targetSize
      (.inl History.always_nil) ops
    rcases hrun with htimely | hstale | ⟨s, hs, -⟩ | ⟨e, he, -⟩
    · exact htimely
    · exact absurd hsorted hstale
    · rw [show (run B (create back lastSize maxSize targetSize) ops).core.samples = [] from hsamples] at hs
      exact absurd hs List.not_mem_nil
    · rw [show (run B (create back lastSize maxSize targetSize) ops).core.tasks = [] from htasks] at he
      exact absurd he List.not_mem_nil

def lostAt (time : UInt64) : PerfRecordLost where
  sampleId := { time := time }

/-- A lost record and an earlier sample that wait for the same flush. -/
theorem written_sorted_unordered :
    (written ((create () 0 128 64).run discard [.lost (lostAt 7), .sample (sampleAt 3), .finalize]).trace).Pairwise
      (· ≤ ·) :=
  have hprefixes : ∀ pre ∈ ([.lost (lostAt 7), .sample (sampleAt 3), .finalize] : List Op).inits,
      ((create () 0 128 64).run discard pre).timeOrderViolations = 0 := by decide
  have htimely : Always Timely
      ((create () 0 128 64).run discard [.lost (lostAt 7), .sample (sampleAt 3), .finalize]).trace := by decide
  (written_sorted discard () 0 128 64 _ (fun pre hpre => hprefixes pre ((List.mem_inits pre _).2 hpre))).1 htimely

/-- A lost record that a round sends after its samples, then an earlier sample. -/
def lateSample : List Op := [.lost (lostAt 10), .finishedRound, .sample (sampleAt 5), .finalize]

theorem written_not_sorted : ¬∀ ops : List Op,
    (∀ pre, pre <+: ops → ((create () 0 0 0).run discard pre).timeOrderViolations = 0) →
    (written ((create () 0 0 0).run discard ops).trace).Pairwise (· ≤ ·) := by
  intro h
  have hprefixes : ∀ pre ∈ lateSample.inits, ((create () 0 0 0).run discard pre).timeOrderViolations = 0 := by decide
  have hsorted := h lateSample (fun pre hpre => hprefixes pre ((List.mem_inits pre lateSample).2 hpre))
  revert hsorted
  decide

end PerfUnwind

end PerfParser
