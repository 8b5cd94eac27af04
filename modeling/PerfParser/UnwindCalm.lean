import PerfParser.UnwindTasks
/-!
# UnwindCalm — runs whose events arrive in order

Where the times of the events do not decrease, every buffer is the rest of what arrived, in the order of arrival, and no
flush finds anything before the end of an earlier one: no time order violation is ever counted (`run_calm`).
-/
namespace PerfParser

open StableSort (sortBy)
open PerfUnwind (Sorted)

/-- The times do not decrease. -/
abbrev InTime (events : List Event) : Prop := events.Pairwise (fun x y => x.time ≤ y.time)

theorem InTime.of_prefix {events events' : List Event} (h : InTime events') (hp : events <+: events') : InTime events :=
  h.sublist hp.sublist

theorem InTime.sorted {α : Type} {events : List Event} (h : InTime events) {kind : Event → Option α} {time : α → UInt64}
    (hkind : ∀ event a, kind event = some a → time a = event.time) : Sorted time (events.filterMap kind) := by
  refine List.Pairwise.filterMap kind (fun x y hxy a ha b hb => ?_) h
  unfold StableSort.KeyLE
  rw [hkind x a ha, hkind y b hb]
  exact hxy

section

variable {σ : Type} {trace : List (Entry σ)} (h : InTime (arrivals trace))

include h

theorem InTime.samples : Sorted (fun s : PerfRecordSample => s.time) (arrivedSamples trace) :=
  h.sorted (fun event s hs => by cases event <;> cases hs; rfl)

theorem InTime.mmaps : Sorted (fun m : PerfRecordMmap => m.time) (arrivedMmaps trace) :=
  h.sorted (fun event m hm => by cases event <;> cases hm; rfl)

theorem InTime.tasks : Sorted TaskEvent.time (arrivedTasks trace) :=
  h.sorted (fun event e he => by cases event <;> cases he; rfl)

end

namespace Core

variable {σ : Type} {B : Backend σ}

/-- Each buffer with what left it is what arrived, and the mmaps that wait are not before a sample that was analysed. -/
structure Straight (c : Core σ) : Prop where
  samples : analysed c.trace ++ c.samples = arrivedSamples c.trace
  mmaps : registered c.trace ++ c.mmaps = arrivedMmaps c.trace
  tasks : sent c.trace ++ c.tasks = arrivedTasks c.trace
  behind : ∀ s ∈ analysed c.trace, ∀ m ∈ c.mmaps, s.time ≤ m.time

/-- The samples that wait are not before one that was analysed. -/
theorem Straight.samples_behind {c : Core σ} (h : c.Straight) (htime : InTime (arrivals c.trace))
    {s s' : PerfRecordSample}
    (hs : s ∈ analysed c.trace) (hs' : s' ∈ c.samples) : s.time ≤ s'.time := by
  have hsorted := htime.samples
  rw [← h.samples] at hsorted
  exact (List.pairwise_append.1 hsorted).2.2 s hs s' hs'

theorem Straight.sort_eq {c : Core σ} (h : c.Straight) (htime : InTime (arrivals c.trace)) : c.sort = c := by
  have hsamples := htime.samples
  have hmmaps := htime.mmaps
  have htasks := htime.tasks
  rw [← h.samples] at hsamples
  rw [← h.mmaps] at hmmaps
  rw [← h.tasks] at htasks
  unfold Core.sort
  rw [StableSort.sortBy_of_sorted _ (List.pairwise_append.1 hsamples).2.1,
    StableSort.sortBy_of_sorted _ (List.pairwise_append.1 hmmaps).2.1,
    StableSort.sortBy_of_sorted _ (List.pairwise_append.1 htasks).2.1]

/-- A call that takes nothing out of a buffer. -/
theorem Straight.call {c : Core σ} (h : c.Straight) (r : Registry) {x : Call} (hx : ∀ last (b : σ),
    analysed [Entry.call last b x] = [] ∧ registered [Entry.call last b x] = [] ∧ sent [Entry.call last b x] = []) :
    (c.call B r x).Straight where
  samples := by simpa [hx] using! h.samples
  mmaps := by simpa [hx] using! h.mmaps
  tasks := by simpa [hx] using! h.tasks
  behind := by simpa [hx] using! h.behind

theorem Straight.send {c : Core σ} (h : c.Straight) (r : Registry) {e : TaskEvent} {es : List TaskEvent}
    (he : c.tasks = e :: es) : (({ c with tasks := es } : Core σ).call B r (.sendTaskEvent e)).Straight where
  samples := by simpa using! h.samples
  mmaps := by simpa using! h.mmaps
  tasks := by
    have := h.tasks
    rw [he] at this
    simpa using! this
  behind := by simpa using! h.behind

theorem Step.straight {late : Bool} {c c' : Core σ} (h : Step B late c c') (htime : InTime (PerfParser.arrivals c.trace))
    (hs : c.Straight) : c'.Straight := by
  cases h with
  | sort => rwa [hs.sort_eq htime]
  | note r x hx => exact hs.call r (called_of_note hx)
  | resolve string => exact ⟨hs.samples, hs.mmaps, hs.tasks, hs.behind⟩
  | advance s hmem hlast => exact ⟨hs.samples, hs.mmaps, hs.tasks, hs.behind⟩
  | forward r m ms id hm hlast htasks =>
    have hmmaps := hs.mmaps
    have hbehind := hs.behind
    rw [hm] at hmmaps hbehind
    refine ⟨by simpa using! hs.samples, by simpa using! hmmaps, by simpa using! hs.tasks, ?_⟩
    simpa using! fun s hmem m' hm' => hbehind s hmem m' (List.mem_cons_of_mem _ hm')
  | forked r r' e es parentPid he hf hlast hmmaps =>
    exact (hs.call (B := B) r (x := .initAfterFork e parentPid) (fun _ _ => ⟨rfl, rfl, rfl⟩)).send r' he
  | ended r r' e es he hf hd hlast =>
    exact (hs.call (B := B) r (x := .dropSymbolTable e) (fun _ _ => ⟨rfl, rfl, rfl⟩)).send r' he
  | plain r e es he hf hd hlast => exact hs.send r he
  | analyze r s ss hmem hlast hnow hmmaps htasks =>
    have hsamples := hs.samples
    rw [hmem] at hsamples
    refine ⟨by simpa using! hsamples, by simpa using! hs.mmaps, by simpa using! hs.tasks, ?_⟩
    simp only [call_trace, analysed_append, analysed_call, nil_trace, List.append_nil, List.mem_append,
      List.mem_singleton]
    rintro s' (hs' | rfl) m hm
    · exact hs.behind s' hs' m hm
    · exact Std.le_of_lt (hmmaps m hm)
  | leave size desired =>
    exact ⟨by simpa using! hs.samples, by simpa using! hs.mmaps, by simpa using! hs.tasks, by simpa using! hs.behind⟩
  | trail r e es waiting size desired he hmark hdue => exact hs.send r he

theorem Steps.straight {late : Bool} {c c' : Core σ} (h : Steps B late c c')
    (htime : InTime (PerfParser.arrivals c.trace))
    (hs : c.Straight) : c'.Straight := by
  induction h with
  | refl => exact hs
  | tail hsteps h ih => exact h.straight (by rw [Steps.arrivals hsteps]; exact htime) ih

theorem Straight.arrive {c : Core σ} (h : c.Straight) (event : Event) (htime : InTime (arrivals (c.arrive event).trace)) :
    (c.arrive event).Straight := by
  have hbehind : ∀ m, event = .mmap m → ∀ s ∈ analysed c.trace, s.time ≤ m.time := by
    rintro m rfl s hs
    have hmem : s ∈ arrivedSamples c.trace := by
      rw [← h.samples]
      exact List.mem_append_left _ hs
    obtain ⟨x, hx, hxs⟩ := List.mem_filterMap.1 hmem
    rw [arrive_trace, arrivals_append] at htime
    have hle := (List.pairwise_append.1 htime).2.2 x hx (.mmap m) (List.mem_singleton_self _)
    cases x <;> cases hxs
    exact hle
  refine ⟨?_, ?_, ?_, fun s hs m hm => ?_⟩
  · cases event <;> simp [← h.samples]
  · cases event <;> simp [← h.mmaps]
  · cases event <;> simp [← h.tasks]
  · rw [arrive_trace, analysed_append, (called_arrived event []).1, nil_trace.2.2.2.1, List.append_nil] at hs
    rw [arrive_mmaps] at hm
    cases event with
    | mmap m' =>
      rcases List.mem_append.1 hm with hm | hm
      · exact h.behind s hs m hm
      · exact hbehind m (by rw [List.mem_singleton.1 hm]) s hs
    | sample s' => exact h.behind s hs m hm
    | task e => exact h.behind s hs m hm

/-- `m_lastFlushMaxTime` is the time of a sample that was analysed. -/
def Settled (c : Core σ) : Prop := c.last = 0 ∨ ∃ s ∈ analysed c.trace, s.time = c.last

theorem Settled.grow {c c' : Core σ} (h : c.Settled) (hlast : c'.last = c.last) (htrace : c.trace <+: c'.trace) :
    c'.Settled := by
  unfold Settled
  rw [hlast]
  exact h.imp_right (fun ⟨s, hs, he⟩ => ⟨s, (htrace.filterMap _).subset hs, he⟩)

/-- What holds between flushes in a run in time. -/
structure Calm (c : Core σ) : Prop where
  straight : c.Straight
  settled : c.Settled

theorem Moves.trace_prefix {late : Bool} {c c' : Core σ} (h : Moves B late c c') : c.trace <+: c'.trace := by
  induction h with
  | refl => exact List.prefix_refl _
  | tail _ h ih => exact ih.trans h.trace_prefix

end Core

namespace PerfUnwind

open PerfParser.Core

variable {σ : Type} {B : Backend σ}

theorem Calm.not_violated {u : PerfUnwind σ} (h : u.core.Calm) (htime : InTime (arrivals u.trace)) : ¬u.Violated := by
  rcases h.settled with hzero | ⟨s, hs, hlast⟩
  · rintro (⟨m, -, hlt⟩ | ⟨s, -, hlt⟩)
    · exact absurd hlt (by rw [show u.lastFlushMaxTime = 0 from hzero]; exact UInt64.not_lt_zero)
    · exact absurd hlt (by rw [show u.lastFlushMaxTime = 0 from hzero]; exact UInt64.not_lt_zero)
  · rintro (⟨m, hm, hlt⟩ | ⟨s', hs', hlt⟩)
    · exact absurd hlt (UInt64.not_lt.2 (Std.le_trans (Std.le_of_eq hlast.symm) (h.straight.behind s hs m hm)))
    · exact absurd hlt
        (UInt64.not_lt.2 (Std.le_trans (Std.le_of_eq hlast.symm) (h.straight.samples_behind htime hs hs')))

/-! ## A flush in time -/

theorem mem_analysed_processSample {f : Flush σ} (h : f.Ready) (s : PerfRecordSample) :
    s ∈ analysed (processSample B f s).unwind.trace := by
  have hstats : (forwardMmapBuffer B s.time (processTasks B s.time f.unwind f.mmapIt f.taskEventIt).1
      (processTasks B s.time f.unwind f.mmapIt f.taskEventIt).2.1).1.stats.enabled = false := by
    rw [stats_of_frame (frame_forwardMmapBuffer s.time _ _),
      stats_of_frame (frame_processTasks s.time f.unwind f.mmapIt f.taskEventIt), h.stats]
  simp only [processSample, callUnlessStats, hstats, Bool.false_eq_true, if_false, PerfUnwind.call, analysed_append,
    analysed_call, nil_trace, List.append_nil]
  exact List.mem_append_right _ (List.mem_singleton_self s)

/-- The loop over the samples settles at the last of them it analyses. -/
theorem sampleLoop_settled (desired : UInt32) : ∀ (f : Flush σ) (samples waiting : List PerfRecordSample), f.Ready →
    (f.view waiting).Settled → ((sampleLoop B desired f samples).1.view waiting).Settled
  | f, [], waiting, _, hs => hs
  | f, s :: samples, waiting, h, hs => by
    unfold sampleLoop
    split
    · split
      · rename_i hlt
        have hready : ({ f with violatesTimeOrder := true } : Flush σ).Ready := ⟨h.stats, h.mmaps, h.tasks⟩
        have hsteps : Steps B true (({ f with violatesTimeOrder := true } : Flush σ).view (s :: samples)) _ :=
          processSample_steps hready (Std.le_of_lt hlt) (.inl rfl)
        have hframe := frame_processSample (B := B) { f with violatesTimeOrder := true } s
        exact sampleLoop_settled desired _ samples waiting (processSample_ready hready s)
          (hs.grow (lastFlushMaxTime_of_frame hframe) hsteps.moves.trace_prefix)
      · split
        · have hsteps : Steps B true (f.unwind.view waiting f.mmapIt f.taskEventIt) _ :=
            forwardMmapBuffer_steps waiting f.taskEventIt (.inl rfl) f.unwind f.mmapIt h.stats (Std.le_refl _)
          have hframe := frame_forwardMmapBuffer (B := B) f.unwind.lastFlushMaxTime f.unwind f.mmapIt
          exact hs.grow (lastFlushMaxTime_of_frame hframe) hsteps.moves.trace_prefix
        · have hready : ({ f with unwind := { f.unwind with lastFlushMaxTime := s.time } } : Flush σ).Ready :=
            ⟨h.stats, h.mmaps, h.tasks⟩
          have hframe := frame_processSample (B := B) { f with unwind := { f.unwind with lastFlushMaxTime := s.time } } s
          exact sampleLoop_settled desired _ samples waiting (processSample_ready hready s)
            (.inr ⟨s, mem_analysed_processSample hready s, (lastFlushMaxTime_of_frame hframe).symm⟩)
    · exact hs

theorem flushEventBuffer_settled {u : PerfUnwind σ} (h : u.stats.enabled = false) (desired : UInt32)
    (hs : u.core.Settled) : (u.flushEventBuffer B desired).core.Settled := by
  have hstart : ((u.startFlush B).view (u.startFlush B).unwind.sampleBuffer).Settled :=
    hs.grow (lastFlushMaxTime_of_frame (frame_startFlush h)) (startFlush_steps true h).moves.trace_prefix
  have hready := startFlush_ready (B := B) h
  have hsettled := sampleLoop_settled (B := B) desired (u.startFlush B) (u.startFlush B).unwind.sampleBuffer [] hready
    hstart
  have hsettings := settings_sampleLoop (B := B) desired (u.startFlush B) (u.startFlush B).unwind.sampleBuffer
  rw [flushEventBuffer_core]
  unfold flushLoops
  generalize sampleLoop B desired (u.startFlush B) (u.startFlush B).unwind.sampleBuffer = g at *
  obtain ⟨g, samples⟩ := g
  have hframe := frame_trailingLoop (B := B) desired (g.leave desired) g.taskEventIt
  have hstats : (g.leave desired).stats.enabled = false := by
    rw [show (g.leave desired).stats = g.unwind.stats from rfl, stats_of_settings hsettings, hready.stats]
  have htrailing : Steps B true ((g.leave desired).view samples g.mmapIt g.taskEventIt) _ :=
    trailingLoop_steps samples g.mmapIt (g.leave desired) g.taskEventIt hstats
      (List.mem_append_right _ List.mem_cons_self) (fun _ he => he)
  dsimp only
  rw [eraseUntil_of_stats (by rw [stats_of_frame hframe, hstats])]
  refine hsettled.grow (lastFlushMaxTime_of_frame hframe) (List.IsPrefix.trans ?_ htrailing.moves.trace_prefix)
  exact List.prefix_append _ _

/-- **A flush in time** counts no violation. -/
theorem flushEventBuffer_calm {u : PerfUnwind σ} (h : u.stats.enabled = false) (desired : UInt32) (hc : u.core.Calm)
    (htime : InTime (arrivals u.trace)) :
    u.violates B desired = false ∧ (u.flushEventBuffer B desired).core.Calm := by
  have hviolates : u.violates B desired = false :=
    Bool.eq_false_of_not_eq_true (fun hv => Calm.not_violated hc htime (violated_of_violates h hv))
  have hsteps := flushEventBuffer_steps (B := B) h desired
  exact ⟨hviolates, hsteps.straight htime hc.straight, flushEventBuffer_settled h desired hc.settled⟩

theorem flushAll_calm (sizes : List UInt32) {u : PerfUnwind σ} (h : u.stats.enabled = false) (hc : u.core.Calm)
    (htime : InTime (arrivals u.trace)) :
    (u.flushAll B sizes).timeOrderViolations = u.timeOrderViolations ∧ (u.flushAll B sizes).core.Calm := by
  refine (flushAll_induction (B := B)
    (P := fun v => v.stats.enabled = false ∧ v.timeOrderViolations = u.timeOrderViolations ∧ v.core.Calm ∧
      InTime (arrivals v.trace)) ?_ sizes ⟨h, rfl, hc, htime⟩).2.imp_right And.left
  rintro v desired ⟨hs, hv, hc, htime⟩
  obtain ⟨hviolates, hcalm⟩ := flushEventBuffer_calm (B := B) hs desired hc htime
  obtain ⟨hs', hv'⟩ := flushEventBuffer_keeps (B := B) hs desired
  have harrivals : arrivals (v.flushEventBuffer B desired).core.trace = arrivals v.core.trace :=
    Steps.arrivals (flushEventBuffer_steps hs desired)
  refine ⟨by rw [hs', hs], ?_, hcalm, ?_⟩
  · rw [hv', hviolates, hv]
    exact UInt32.add_zero _
  · rw [show arrivals (v.flushEventBuffer B desired).trace = _ from harrivals]
    exact htime

/-! ## A run in time -/

theorem Quiet.calm {u v : PerfUnwind σ} (hq : Quiet B u v) (h : u.stats.enabled = false) (hc : u.core.Calm)
    (htime : InTime (arrivals u.trace)) : v.core.Calm := by
  obtain ⟨-, -, hsteps⟩ := hq.steps true h
  refine ⟨hsteps.straight htime hc.straight, hc.settled.grow ?_ hsteps.moves.trace_prefix⟩
  cases hq with
  | setMax size => exact congrArg Core.last (core_setMaxEventBufferSize u size)
  | setTarget size => exact congrArg Core.last (core_setTargetEventBufferSize u size)
  | _ => rfl

theorem Quiets.calm {u v : PerfUnwind σ} (hq : Quiets B u v) (h : u.stats.enabled = false) (hc : u.core.Calm)
    (htime : InTime (arrivals u.trace)) : v.core.Calm := by
  induction hq with
  | refl => exact hc
  | @tail v w hq hstep ih =>
    obtain ⟨hs, -, hsteps⟩ := Quiets.steps true hq h
    have htime' : InTime (arrivals v.core.trace) := by
      rw [hsteps.arrivals]
      exact htime
    exact hstep.calm hs ih htime'

theorem enqueueAll_calm : ∀ (events : List Event) {u : PerfUnwind σ}, u.stats.enabled = false → u.core.Calm →
    InTime (arrivals u.trace ++ events) → (u.enqueueAll events).core.Calm
  | [], _, _, hc, _ => hc
  | event :: events, u, h, hc, htime => by
    obtain ⟨hs, -, hcore⟩ := enqueue_of_stats h event
    have harrivals : arrivals (u.enqueue event).trace = arrivals u.trace ++ [event] := by
      rw [show (u.enqueue event).trace = (u.enqueue event).core.trace from rfl, hcore, Core.arrive_trace,
        arrivals_append]
      rfl
    have hfirst : InTime (arrivals (u.core.arrive event).trace) := by
      rw [← hcore]
      exact htime.of_prefix ⟨events, by rw [show arrivals (u.enqueue event).core.trace = _ from harrivals]; simp⟩
    refine enqueueAll_calm events (u := u.enqueue event) (by rw [hs, h]) ?_ (by rw [harrivals]; simpa using htime)
    rw [hcore]
    refine ⟨hc.straight.arrive event hfirst, hc.settled.grow (Core.arrive_last u.core event) ?_⟩
    rw [Core.arrive_trace]
    exact List.prefix_append _ _

theorem apply_calm {u : PerfUnwind σ} (h : u.stats.enabled = false) (op : Op) (hc : u.core.Calm)
    (htime : InTime (arrivals (u.apply B op).trace)) :
    (u.apply B op).timeOrderViolations = u.timeOrderViolations ∧ (u.apply B op).core.Calm := by
  rw [apply_arrivals h] at htime
  obtain ⟨v, sizes, hq, -, he⟩ := apply_shape (B := B) u op
  obtain ⟨hs, hv, hsteps⟩ := hq.steps true h
  have harrivals : arrivals v.trace = arrivals u.trace := Steps.arrivals hsteps
  obtain ⟨hs', hv', -⟩ := enqueueAll_moves (B := B) true (u.event? B op).toList hs
  have hcalm := hq.calm h hc (htime.of_prefix (List.prefix_append _ _))
  have henqueue := enqueueAll_calm (u.event? B op).toList hs hcalm (by rw [harrivals]; exact htime)
  have htime' : InTime (arrivals (v.enqueueAll (u.event? B op).toList).core.trace) := by
    rw [enqueueAll_arrivals _ hs, hsteps.arrivals]
    exact htime
  obtain ⟨hv'', hflush⟩ := flushAll_calm (B := B) sizes hs' henqueue htime'
  rw [he]
  exact ⟨hv''.trans (hv'.trans hv), hflush⟩

/-- **A run in time** counts no violation. -/
theorem run_calm : ∀ (ops : List Op) {u : PerfUnwind σ}, u.stats.enabled = false → u.core.Calm →
    InTime (arrivals (u.run B ops).trace) → (u.run B ops).timeOrderViolations = u.timeOrderViolations
  | [], _, _, _, _ => rfl
  | op :: ops, u, h, hc, htime => by
    have hs := (apply_moves (B := B) h op).1
    have hfirst : InTime (arrivals (u.apply B op).trace) := by
      refine htime.of_prefix ?_
      rw [show arrivals (u.run B (op :: ops)).trace = _ from run_arrivals ops hs]
      exact List.prefix_append _ _
    obtain ⟨hv, hcalm⟩ := apply_calm h op hc hfirst
    exact (run_calm ops hs hcalm htime).trans hv

/-- **A run in time is a sequence of moves, none of them late.** -/
theorem run_moves_inTime (back : σ) (lastSize maxSize targetSize : UInt32) (ops : List Op)
    (htime : InTime ((create back lastSize maxSize targetSize).passed B ops)) :
    Moves B false (create back lastSize maxSize targetSize).core
      ((create back lastSize maxSize targetSize).run B ops).core := by
  refine (run_moves (B := B) ops (u := create back lastSize maxSize targetSize) rfl).2.2 ?_
  rintro pre ⟨post, rfl⟩
  have hcalm : (create back lastSize maxSize targetSize).core.Calm :=
    ⟨⟨rfl, rfl, rfl, by simp [create, core, view]⟩, .inl rfl⟩
  rw [passed_append] at htime
  refine run_calm (B := B) pre rfl hcalm ?_
  rw [create_arrivals]
  exact htime.of_prefix (List.prefix_append _ _)

end PerfUnwind

end PerfParser
