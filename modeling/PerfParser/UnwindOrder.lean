import PerfParser.UnwindSteps
import PerfParser.Lib.History
/-!
# UnwindOrder — what leaves the buffers, and in which order

Each buffer with what left it is a queue of what arrived, class by class of equal times (`Queues`).  From that: the
mmaps are registered in order and in time for every sample, and samples are analysed in order as long as nothing
violates the time order (`Move.samplesSorted`).
-/
namespace PerfParser

open StableSort (classOf Queued sortBy)
open History (Always)

/-! ## Reading the trace -/

namespace Entry

variable {σ : Type}

def arrived? : Entry σ → Option Event
  | .arrived event => some event
  | _ => none

def analysed? : Entry σ → Option PerfRecordSample
  | .call _ _ (.analyze s) => some s
  | _ => none

def registered? : Entry σ → Option PerfRecordMmap
  | .call _ _ (.registerElf m _) => some m
  | _ => none

def sent? : Entry σ → Option TaskEvent
  | .call _ _ (.sendTaskEvent e) => some e
  | _ => none

@[simp] theorem arrived?_call (last : UInt64) (b : σ) (x : Call) : (call last b x).arrived? = none := rfl

@[simp] theorem arrived?_trailing (waiting : List TaskEvent) (size desired : UInt32) :
    (trailing waiting size desired : Entry σ).arrived? = none := rfl

end Entry

section Trace

variable {σ : Type} (trace : List (Entry σ))

def arrivals : List Event := trace.filterMap Entry.arrived?

def arrivedSamples : List PerfRecordSample := (arrivals trace).filterMap Event.sample?

def arrivedMmaps : List PerfRecordMmap := (arrivals trace).filterMap Event.mmap?

def arrivedTasks : List TaskEvent := (arrivals trace).filterMap Event.task?

def analysed : List PerfRecordSample := trace.filterMap Entry.analysed?

def registered : List PerfRecordMmap := trace.filterMap Entry.registered?

def sent : List TaskEvent := trace.filterMap Entry.sent?

@[simp] theorem arrivals_append (t t' : List (Entry σ)) : arrivals (t ++ t') = arrivals t ++ arrivals t' :=
  List.filterMap_append ..

@[simp] theorem arrivedSamples_append (t t' : List (Entry σ)) :
    arrivedSamples (t ++ t') = arrivedSamples t ++ arrivedSamples t' := by
  simp only [arrivedSamples, arrivals_append, List.filterMap_append]

@[simp] theorem arrivedMmaps_append (t t' : List (Entry σ)) :
    arrivedMmaps (t ++ t') = arrivedMmaps t ++ arrivedMmaps t' := by
  simp only [arrivedMmaps, arrivals_append, List.filterMap_append]

@[simp] theorem arrivedTasks_append (t t' : List (Entry σ)) :
    arrivedTasks (t ++ t') = arrivedTasks t ++ arrivedTasks t' := by
  simp only [arrivedTasks, arrivals_append, List.filterMap_append]

@[simp] theorem analysed_append (t t' : List (Entry σ)) : analysed (t ++ t') = analysed t ++ analysed t' :=
  List.filterMap_append ..

@[simp] theorem registered_append (t t' : List (Entry σ)) : registered (t ++ t') = registered t ++ registered t' :=
  List.filterMap_append ..

@[simp] theorem sent_append (t t' : List (Entry σ)) : sent (t ++ t') = sent t ++ sent t' := List.filterMap_append ..

@[simp] theorem arrivals_cons (x : Entry σ) (t : List (Entry σ)) :
    arrivals (x :: t) = x.arrived?.toList ++ arrivals t := by
  cases x <;> rfl

@[simp] theorem arrivals_nil : arrivals ([] : List (Entry σ)) = [] := rfl

@[simp] theorem nil_trace :
    arrivedSamples ([] : List (Entry σ)) = [] ∧ arrivedMmaps ([] : List (Entry σ)) = [] ∧
      arrivedTasks ([] : List (Entry σ)) = [] ∧ analysed ([] : List (Entry σ)) = [] ∧
      registered ([] : List (Entry σ)) = [] ∧ sent ([] : List (Entry σ)) = [] := ⟨rfl, rfl, rfl, rfl, rfl, rfl⟩

@[simp] theorem arrivedSamples_arrived (event : Event) (t : List (Entry σ)) : arrivedSamples (.arrived event :: t) =
    (match event with | .sample s => [s] | _ => []) ++ arrivedSamples t := by
  cases event <;> rfl

@[simp] theorem arrivedMmaps_arrived (event : Event) (t : List (Entry σ)) : arrivedMmaps (.arrived event :: t) =
    (match event with | .mmap m => [m] | _ => []) ++ arrivedMmaps t := by
  cases event <;> rfl

@[simp] theorem arrivedTasks_arrived (event : Event) (t : List (Entry σ)) : arrivedTasks (.arrived event :: t) =
    (match event with | .task e => [e] | _ => []) ++ arrivedTasks t := by
  cases event <;> rfl

@[simp] theorem analysed_call (last : UInt64) (b : σ) (x : Call) (t : List (Entry σ)) :
    analysed (.call last b x :: t) = (match x with | .analyze s => [s] | _ => []) ++ analysed t := by
  cases x <;> rfl

@[simp] theorem registered_call (last : UInt64) (b : σ) (x : Call) (t : List (Entry σ)) :
    registered (.call last b x :: t) = (match x with | .registerElf m _ => [m] | _ => []) ++ registered t := by
  cases x <;> rfl

@[simp] theorem sent_call (last : UInt64) (b : σ) (x : Call) (t : List (Entry σ)) :
    sent (.call last b x :: t) = (match x with | .sendTaskEvent e => [e] | _ => []) ++ sent t := by
  cases x <;> rfl

@[simp] theorem arrived_call (last : UInt64) (b : σ) (x : Call) (t : List (Entry σ)) :
    arrivedSamples (.call last b x :: t) = arrivedSamples t ∧ arrivedMmaps (.call last b x :: t) = arrivedMmaps t ∧
      arrivedTasks (.call last b x :: t) = arrivedTasks t := ⟨rfl, rfl, rfl⟩

@[simp] theorem called_arrived (event : Event) (t : List (Entry σ)) :
    analysed (.arrived event :: t) = analysed t ∧ registered (.arrived event :: t) = registered t ∧
      sent (.arrived event :: t) = sent t := ⟨rfl, rfl, rfl⟩

@[simp] theorem trailing_trace (waiting : List TaskEvent) (size desired : UInt32) (t : List (Entry σ)) :
    arrivedSamples (.trailing waiting size desired :: t) = arrivedSamples t ∧
      arrivedMmaps (.trailing waiting size desired :: t) = arrivedMmaps t ∧
      arrivedTasks (.trailing waiting size desired :: t) = arrivedTasks t ∧
      analysed (.trailing waiting size desired :: t) = analysed t ∧
      registered (.trailing waiting size desired :: t) = registered t ∧
      sent (.trailing waiting size desired :: t) = sent t := ⟨rfl, rfl, rfl, rfl, rfl, rfl⟩

theorem called_of_note {x : Call} (hx : x.isNote = true) (last : UInt64) (b : σ) :
    analysed [Entry.call last b x] = [] ∧ registered [Entry.call last b x] = [] ∧ sent [Entry.call last b x] = [] := by
  cases x <;> first | exact ⟨rfl, rfl, rfl⟩ | cases hx

end Trace

/-- What holds of the mmaps when a sample is analysed. -/
structure RegistersInOrder {σ : Type} (pre : List (Entry σ)) (s : PerfRecordSample) (last : UInt64) : Prop where
  complete : ∀ t ≤ s.time, classOf (fun m : PerfRecordMmap => m.time) t (registered pre) =
    classOf (fun m : PerfRecordMmap => m.time) t (arrivedMmaps pre)
  bounded : ∀ m ∈ registered pre, m.time ≤ last
  ordered : ∀ t, classOf (fun m : PerfRecordMmap => m.time) t (registered pre) <+:
    classOf (fun m : PerfRecordMmap => m.time) t (arrivedMmaps pre)
  once : ∀ m, (registered pre).count m ≤ (arrivedMmaps pre).count m

/-- An entry that analyses a sample finds the mmaps in order. -/
def AnalysesInOrder {σ : Type} (pre : List (Entry σ)) : Entry σ → Prop
  | .call last _ (.analyze s) => RegistersInOrder pre s last
  | _ => True

/-! ## The queues -/

/-- The trace of a core explains its buffers: each is what has arrived less what has left. -/
structure Core.Queues {σ : Type} (c : Core σ) : Prop where
  samples : Queued (fun s : PerfRecordSample => s.time) (analysed c.trace) c.samples (arrivedSamples c.trace)
  mmaps : Queued (fun m : PerfRecordMmap => m.time) (registered c.trace) c.mmaps (arrivedMmaps c.trace)
  tasks : Queued TaskEvent.time (sent c.trace) c.tasks (arrivedTasks c.trace)

namespace Core

variable {σ : Type} {B : Backend σ}

@[simp] theorem call_trace (c : Core σ) (r : Registry) (x : Call) :
    (c.call B r x).trace = c.trace ++ [.call c.last c.back x] := rfl

@[simp] theorem arrive_trace (c : Core σ) (event : Event) : (c.arrive event).trace = c.trace ++ [.arrived event] := by
  cases event <;> rfl

@[simp] theorem arrive_samples (c : Core σ) (event : Event) :
    (c.arrive event).samples = match event with | .sample s => c.samples ++ [s] | _ => c.samples := by
  cases event <;> rfl

@[simp] theorem arrive_mmaps (c : Core σ) (event : Event) :
    (c.arrive event).mmaps = match event with | .mmap m => c.mmaps ++ [m] | _ => c.mmaps := by
  cases event <;> rfl

@[simp] theorem arrive_tasks (c : Core σ) (event : Event) :
    (c.arrive event).tasks = match event with | .task e => c.tasks ++ [e] | _ => c.tasks := by
  cases event <;> rfl

@[simp] theorem arrive_last (c : Core σ) (event : Event) : (c.arrive event).last = c.last := by
  cases event <;> rfl

/-- A call that takes no event out of a buffer. -/
theorem Queues.call {c : Core σ} (h : c.Queues) (r : Registry) {x : Call} (hx : ∀ last (b : σ),
    analysed [Entry.call last b x] = [] ∧ registered [Entry.call last b x] = [] ∧ sent [Entry.call last b x] = []) :
    (c.call B r x).Queues where
  samples := by simpa [hx] using! h.samples
  mmaps := by simpa [hx] using! h.mmaps
  tasks := by simpa [hx] using! h.tasks

theorem Queues.send {c : Core σ} (h : c.Queues) (r : Registry) {e : TaskEvent} {es : List TaskEvent}
    (he : c.tasks = e :: es) : (({ c with tasks := es } : Core σ).call B r (.sendTaskEvent e)).Queues where
  samples := by simpa using! h.samples
  mmaps := by simpa using! h.mmaps
  tasks := by
    have := h.tasks
    rw [he] at this
    simpa using! this.pop

/-- **Every step keeps the queues.** -/
theorem Step.queues {late : Bool} {c c' : Core σ} (h : Step B late c c') (hq : c.Queues) : c'.Queues := by
  cases h with
  | sort => exact ⟨hq.samples.sort _, hq.mmaps.sort _, hq.tasks.sort _⟩
  | note r x hx => exact hq.call r (called_of_note hx)
  | resolve string => exact ⟨hq.samples, hq.mmaps, hq.tasks⟩
  | advance s hs hlast => exact ⟨hq.samples, hq.mmaps, hq.tasks⟩
  | forward r m ms id hm hlast htasks =>
    refine ⟨by simpa using! hq.samples, ?_, by simpa using! hq.tasks⟩
    have := hq.mmaps
    rw [hm] at this
    simpa using! this.pop
  | forked r r' e es parentPid he hf hlast hmmaps =>
    exact (hq.call (B := B) r (x := .initAfterFork e parentPid) (fun _ _ => ⟨rfl, rfl, rfl⟩)).send r' he
  | ended r r' e es he hf hd hlast =>
    exact (hq.call (B := B) r (x := .dropSymbolTable e) (fun _ _ => ⟨rfl, rfl, rfl⟩)).send r' he
  | plain r e es he hf hd hlast => exact hq.send r he
  | analyze r s ss hs hlast hnow hmmaps htasks =>
    refine ⟨?_, by simpa using! hq.mmaps, by simpa using! hq.tasks⟩
    have := hq.samples
    rw [hs] at this
    simpa using! this.pop
  | leave size desired => exact ⟨by simpa using! hq.samples, by simpa using! hq.mmaps, by simpa using! hq.tasks⟩
  | trail r e es waiting size desired he hmark hdue => exact hq.send r he

theorem Move.queues {late : Bool} {c c' : Core σ} (h : Move B late c c') (hq : c.Queues) : c'.Queues := by
  cases h with
  | arrive event =>
    cases event with
    | sample s => exact ⟨by simpa using hq.samples.arrive _ s, by simpa using hq.mmaps, by simpa using hq.tasks⟩
    | mmap m => exact ⟨by simpa using hq.samples, by simpa using hq.mmaps.arrive _ m, by simpa using hq.tasks⟩
    | task e => exact ⟨by simpa using hq.samples, by simpa using hq.mmaps, by simpa using hq.tasks.arrive _ e⟩
  | step h => exact h.queues hq

/-! ## Mmaps before samples -/

theorem Queues.registersInOrder {c : Core σ} (hq : c.Queues) {s : PerfRecordSample}
    (hmmaps : ∀ m ∈ c.mmaps, s.time < m.time) (hlast : ∀ m ∈ registered c.trace, m.time ≤ c.last) :
    RegistersInOrder c.trace s c.last where
  complete t ht := hq.mmaps.classOf_eq _ (fun m hm he => UInt64.not_lt.2 (he ▸ ht) (hmmaps m hm))
  bounded := hlast
  ordered := hq.mmaps.classOf_prefix _
  once m := by
    have hperm := hq.mmaps.perm
    rw [← hperm.count_eq, List.count_append]
    exact Nat.le_add_right _ _

/-- The invariant of the mmaps along a run. -/
structure InOrder (c : Core σ) : Prop where
  queues : c.Queues
  bounded : ∀ m ∈ registered c.trace, m.time ≤ c.last
  analyses : Always AnalysesInOrder c.trace

/-- Entries that register nothing and analyse nothing. -/
theorem InOrder.quiet {c c' : Core σ} (h : c.InOrder) (hq : c'.Queues) (hlast : c.last ≤ c'.last) (t : List (Entry σ))
    (ht : c'.trace = c.trace ++ t) (hr : registered t = []) (ha : ∀ x ∈ t, ∀ pre, AnalysesInOrder pre x) :
    c'.InOrder where
  queues := hq
  bounded m hm := by
    rw [ht, registered_append, hr, List.append_nil] at hm
    exact Std.le_trans (h.bounded m hm) hlast
  analyses := by
    rw [ht]
    exact History.always_append h.analyses (fun pre x post hx => ha x (by rw [hx]; simp) _)

theorem analysesInOrder_of_note {x : Call} (hx : x.isNote = true) (last : UInt64) (b : σ) (pre : List (Entry σ)) :
    AnalysesInOrder pre (.call last b x) := by
  cases x with
  | analyze s => cases hx
  | _ => trivial

theorem Move.inOrder {late : Bool} {c c' : Core σ} (h : Move B late c c') (hi : c.InOrder) : c'.InOrder := by
  have hq := h.queues hi.queues
  cases h with
  | arrive event =>
    exact hi.quiet hq (by rw [arrive_last]; exact Std.le_refl _) [.arrived event] (arrive_trace c event)
      rfl (by simp [AnalysesInOrder])
  | step h =>
    cases h with
    | sort => exact hi.quiet hq (Std.le_refl _) [] (by simp [Core.sort]) rfl (by simp)
    | note r x hx =>
      refine hi.quiet hq (Std.le_refl _) [.call c.last c.back x] rfl (called_of_note hx _ _).2.1 ?_
      simpa using analysesInOrder_of_note hx c.last c.back
    | resolve string => exact hi.quiet hq (Std.le_refl _) [] (by simp) rfl (by simp)
    | advance s hs hlast => exact hi.quiet hq hlast [] (by simp) rfl (by simp)
    | forward r m ms id hm hlast htasks =>
      refine ⟨hq, ?_, History.always_snoc.2 ⟨hi.analyses, trivial⟩⟩
      simp only [call_trace, registered_append, registered_call, nil_trace, List.append_nil, List.mem_append,
        List.mem_singleton]
      rintro m' (hm' | rfl)
      · exact hi.bounded m' hm'
      · exact hlast
    | forked r r' e es parentPid he hf hlast hmmaps =>
      exact hi.quiet hq (Std.le_refl _) _ (List.append_assoc _ _ _) rfl (by simp [AnalysesInOrder])
    | ended r r' e es he hf hd hlast =>
      exact hi.quiet hq (Std.le_refl _) _ (List.append_assoc _ _ _) rfl (by simp [AnalysesInOrder])
    | plain r e es he hf hd hlast =>
      exact hi.quiet hq (Std.le_refl _) [_] rfl rfl (by simp [AnalysesInOrder])
    | analyze r s ss hs hlast hnow hmmaps htasks =>
      refine ⟨hq, ?_, History.always_snoc.2 ⟨hi.analyses, hi.queues.registersInOrder hmmaps hi.bounded⟩⟩
      simpa using! hi.bounded
    | leave size desired => exact hi.quiet hq (Std.le_refl _) [_] rfl rfl (by simp [AnalysesInOrder])
    | trail r e es waiting size desired he hmark hdue =>
      exact hi.quiet hq (Std.le_refl _) [_] rfl rfl (by simp [AnalysesInOrder])

/-! ## Samples in order -/

/-- The invariant of the samples along a run that violates no time order. -/
structure SamplesSorted (c : Core σ) : Prop where
  sorted : (analysed c.trace).Pairwise (StableSort.KeyLE (fun s : PerfRecordSample => s.time))
  bounded : ∀ s ∈ analysed c.trace, s.time ≤ c.last

theorem SamplesSorted.quiet {c c' : Core σ} (h : c.SamplesSorted) (hlast : c.last ≤ c'.last)
    (ht : analysed c'.trace = analysed c.trace) : c'.SamplesSorted where
  sorted := by rw [ht]; exact h.sorted
  bounded s hs := by rw [ht] at hs; exact Std.le_trans (h.bounded s hs) hlast

theorem Move.samplesSorted {c c' : Core σ} (h : Move B false c c') (hs : c.SamplesSorted) : c'.SamplesSorted := by
  cases h with
  | arrive event => exact hs.quiet (by rw [arrive_last]; exact Std.le_refl _) (by simp)
  | step h =>
    cases h with
    | sort => exact hs.quiet (Std.le_refl _) rfl
    | note r x hx =>
      exact hs.quiet (Std.le_refl _)
        (by rw [call_trace, analysed_append, (called_of_note hx _ _).1, List.append_nil])
    | resolve string => exact hs.quiet (Std.le_refl _) rfl
    | advance s hs' hlast => exact hs.quiet hlast rfl
    | forward r m ms id hm hlast htasks => exact hs.quiet (Std.le_refl _) (by simp)
    | forked r r' e es parentPid he hf hlast hmmaps => exact hs.quiet (Std.le_refl _) (by simp)
    | ended r r' e es he hf hd hlast => exact hs.quiet (Std.le_refl _) (by simp)
    | plain r e es he hf hd hlast => exact hs.quiet (Std.le_refl _) (by simp)
    | analyze r s ss hss hlast hnow hmmaps htasks =>
      have hnow : s.time = c.last := hnow.resolve_left Bool.false_ne_true
      constructor
      · simp only [call_trace, analysed_append, analysed_call, nil_trace, List.append_nil]
        refine List.pairwise_append.2 ⟨hs.sorted, List.pairwise_singleton _ _, fun a ha b hb => ?_⟩
        rw [List.mem_singleton.1 hb]
        exact Std.le_trans (hs.bounded a ha) (Std.le_of_eq hnow.symm)
      · simp only [call_trace, analysed_append, analysed_call, nil_trace, List.append_nil, List.mem_append,
          List.mem_singleton]
        rintro a (ha | rfl)
        · exact hs.bounded a ha
        · exact hlast
    | leave size desired => exact hs.quiet (Std.le_refl _) (by simp)
    | trail r e es waiting size desired he hmark hdue => exact hs.quiet (Std.le_refl _) (by simp)

/-! ## Arrivals -/

theorem Step.arrivals {late : Bool} {c c' : Core σ} (h : Step B late c c') : arrivals c'.trace = arrivals c.trace := by
  cases h with
  | sort => rfl
  | note r x hx => simp
  | resolve string => rfl
  | advance s hs hlast => rfl
  | forward r m ms id hm hlast htasks => simp
  | forked r r' e es parentPid he hf hlast hmmaps => simp
  | ended r r' e es he hf hd hlast => simp
  | plain r e es he hf hd hlast => simp
  | analyze r s ss hs hlast hnow hmmaps htasks => simp
  | leave size desired => simp
  | trail r e es waiting size desired he hmark hdue => simp

theorem Steps.arrivals {late : Bool} {c c' : Core σ} (h : Steps B late c c') : arrivals c'.trace = arrivals c.trace := by
  induction h with
  | refl => rfl
  | tail _ h ih => rw [h.arrivals, ih]

end Core

namespace PerfUnwind

variable {σ : Type} {B : Backend σ}

theorem enqueueAll_arrivals : ∀ (events : List Event) {u : PerfUnwind σ}, u.stats.enabled = false →
    arrivals (u.enqueueAll events).core.trace = arrivals u.core.trace ++ events
  | [], u, _ => (List.append_nil _).symm
  | event :: events, u, h => by
    obtain ⟨hs, -, hc⟩ := enqueue_of_stats h event
    have ih := enqueueAll_arrivals events (u := u.enqueue event) (by rw [hs, h])
    rw [hc, Core.arrive_trace, arrivals_append, List.append_assoc] at ih
    exact ih

theorem apply_arrivals {u : PerfUnwind σ} (h : u.stats.enabled = false) (op : Op) :
    arrivals (u.apply B op).trace = arrivals u.trace ++ (u.event? B op).toList := by
  obtain ⟨v, sizes, hq, -, he⟩ := apply_shape (B := B) u op
  obtain ⟨hs, -, hsteps⟩ := hq.steps true h
  have henqueue := enqueueAll_arrivals (u.event? B op).toList hs
  obtain ⟨-, n, -, -, hflush⟩ :=
    flushAll_steps (B := B) sizes (enqueueAll_moves (B := B) true (u.event? B op).toList hs).1
  rw [he]
  exact hflush.arrivals.trans (henqueue.trans (by rw [hsteps.arrivals]; rfl))

/-- **The trace logs what the operations of a run pass in.** -/
theorem run_arrivals : ∀ (ops : List Op) {u : PerfUnwind σ}, u.stats.enabled = false →
    arrivals (u.run B ops).trace = arrivals u.trace ++ u.passed B ops
  | [], u, _ => (List.append_nil _).symm
  | op :: ops, u, h => by
    have ih := run_arrivals ops (apply_moves (B := B) h op).1
    rw [apply_arrivals h, List.append_assoc] at ih
    exact ih

theorem create_arrivals (back : σ) (lastSize maxSize targetSize : UInt32) (ops : List Op) :
    arrivals ((create back lastSize maxSize targetSize).run B ops).trace =
      (create back lastSize maxSize targetSize).passed B ops :=
  run_arrivals ops (u := create back lastSize maxSize targetSize) rfl

theorem run_stats (back : σ) (lastSize maxSize targetSize : UInt32) (ops : List Op) :
    ((create back lastSize maxSize targetSize).run B ops).stats.enabled = false :=
  (run_moves ops (u := create back lastSize maxSize targetSize) rfl).1

/-- An invariant of the moves that holds of an empty core holds after every run. -/
theorem run_invariant {P : Core σ → Prop} (hmove : ∀ {c c'}, Core.Move B true c c' → P c → P c')
    (back : σ) (lastSize maxSize targetSize : UInt32) (h : P (create back lastSize maxSize targetSize).core)
    (ops : List Op) : P ((create back lastSize maxSize targetSize).run B ops).core :=
  (run_moves (B := B) ops (u := create back lastSize maxSize targetSize) rfl).2.1.preserve hmove h

theorem create_queues (back : σ) (lastSize maxSize targetSize : UInt32) :
    (create back lastSize maxSize targetSize).core.Queues := ⟨fun _ => rfl, fun _ => rfl, fun _ => rfl⟩

/-- **Mmaps are registered once, in order, and in time for every sample.** -/
theorem run_analysesInOrder (B : Backend σ) (back : σ) (lastSize maxSize targetSize : UInt32) (ops : List Op) :
    Always AnalysesInOrder ((create back lastSize maxSize targetSize).run B ops).trace :=
  (run_invariant Core.Move.inOrder back lastSize maxSize targetSize
    ⟨create_queues back lastSize maxSize targetSize, by simp [create, core, view], History.always_nil⟩ ops).analyses

end PerfUnwind

end PerfParser
