import PerfParser.StatsMode
/-!
# StatsSummary — what stats mode prints (`PerfUnwind::Stats`)

The statistics of a run are a summary of what happens to the buffers in it, flush by flush and round by round
(`Stats.Summary`).  Nothing of that depends on the mode, so they are those of the run that sends what it finds
(`run_summary`).
-/
namespace PerfParser

open StableSort (sortBy)

/-! ## What there is to count -/

/-- What a flush finds out of time, and what it takes from the buffers. -/
structure FlushReport where
  lateSamples : Nat
  lateMmaps : Nat
  samples : Nat
  mmaps : Nat
  tasks : Nat
deriving DecidableEq, Repr

/-- What happens to the buffers in a run. -/
inductive Happening
  | buffered (event : Event) (bufferSize : UInt32)
  | round
  | flushed (report : FlushReport)
deriving DecidableEq, Repr

/-- What the statistics make of it. -/
def Stats.happen (s : Stats) : Happening → Stats
  | .buffered event bufferSize =>
    { s.count event with
      maxBufferSize := max bufferSize s.maxBufferSize
      totalEventSizePerRound := s.totalEventSizePerRound + event.size }.addEventTime event.time
  | .round => s.finishedRound
  | .flushed r =>
    { s with
      numTimeViolatingSamples := s.numTimeViolatingSamples + .ofNat r.lateSamples
      numTimeViolatingMmaps := s.numTimeViolatingMmaps + .ofNat r.lateMmaps
      numBufferFlushes := s.numBufferFlushes + 1
      maxSamplesPerFlush := max (.ofNat r.samples) s.maxSamplesPerFlush
      maxMmapsPerFlush := max (.ofNat r.mmaps) s.maxMmapsPerFlush
      maxTaskEventsPerFlush := max (.ofNat r.tasks) s.maxTaskEventsPerFlush }

theorem Stats.enabled_happen (s : Stats) (h : Happening) : (s.happen h).enabled = s.enabled := by
  cases h with
  | buffered event bufferSize =>
    refine (enabled_tick _ (.event event.time)).trans ?_
    cases event <;> rfl
  | round => rfl
  | flushed r => rfl

theorem Stats.enabled_foldl_happen : ∀ (l : List Happening) (s : Stats), (l.foldl happen s).enabled = s.enabled
  | [], _ => rfl
  | h :: l, s => (enabled_foldl_happen l (s.happen h)).trans (s.enabled_happen h)

def Op.endsRound : Op → Bool
  | .finishedRound => true
  | .finalize => true
  | _ => false

namespace PerfUnwind

variable {σ τ : Type} {B : Backend σ}

variable (B) in
def FlushCall.report (call : FlushCall σ) : FlushReport where
  lateSamples := call.unwind.sampleBuffer.countP fun s => s.time < call.unwind.lastFlushMaxTime
  lateMmaps := call.unwind.mmapBuffer.countP fun m => m.time < call.unwind.lastFlushMaxTime
  samples := call.unwind.sampleBuffer.length - (call.result B).sampleBuffer.length
  mmaps := call.unwind.mmapBuffer.length - (call.result B).mmapBuffer.length
  tasks := call.unwind.taskEventsBuffer.length - (call.result B).taskEventsBuffer.length

variable (B) in
/-- What an operation starts with: it buffers an event or ends a round. -/
def starts (u : PerfUnwind σ) (op : Op) : List Happening :=
  match u.event? B op with
  | some event => [.buffered event.anonymous ((u.interned B op).enqueue event).eventBufferSize]
  | none => if op.endsRound then [.round] else []

variable (B) in
/-- What an operation does to the buffers. -/
def happenings (u : PerfUnwind σ) (op : Op) : List Happening :=
  u.starts B op ++ (u.flushes B op).map fun call => .flushed (call.report B)

variable (B) in
/-- What a run does to the buffers, in order. -/
def runHappenings (u : PerfUnwind σ) : List Op → List Happening
  | [] => []
  | op :: ops => u.happenings B op ++ runHappenings (u.apply B op) ops

/-! Nothing that happens depends on the mode or on what is behind the unwinder. -/

def FlushCall.bare (call : FlushCall σ) : FlushCall Unit := ⟨call.unwind.bare, call.desiredBufferSize⟩

theorem FlushCall.report_bare {call : FlushCall σ} (h : call.unwind.Balanced) :
    call.report B = call.bare.report discard := by
  have hresult : (call.result B).bare = (call.bare.result discard).bare := flushEventBuffer_bare h _
  have hsamples : (call.result B).sampleBuffer = (call.bare.result discard).sampleBuffer :=
    congrArg (fun u : PerfUnwind Unit => u.sampleBuffer) hresult
  have hmmaps : (call.result B).mmapBuffer = (call.bare.result discard).mmapBuffer :=
    congrArg (fun u : PerfUnwind Unit => u.mmapBuffer) hresult
  have htasks : (call.result B).taskEventsBuffer.length = (call.bare.result discard).taskEventsBuffer.length := by
    have hlength := congrArg (fun u : PerfUnwind Unit => u.taskEventsBuffer.length) hresult
    simpa [PerfUnwind.bare] using hlength
  have hbuffered : call.unwind.taskEventsBuffer.length = call.bare.unwind.taskEventsBuffer.length :=
    (List.length_map _).symm
  unfold report
  rw [hsamples, hmmaps, htasks, hbuffered]
  rfl

theorem bufferFlushes_bare (u : PerfUnwind σ) (event : Event) :
    (u.bufferFlushes event).map FlushCall.bare = (u.bare.bufferFlushes event.anonymous).map FlushCall.bare := by
  have henqueue := enqueue_bare u event
  unfold bufferFlushes
  dsimp only
  generalize u.enqueue event = v at *
  generalize u.bare.enqueue event.anonymous = w at *
  rw [show v.targetEventBufferSize = w.targetEventBufferSize from
      congrArg (fun u : PerfUnwind Unit => u.targetEventBufferSize) henqueue,
    show v.eventBufferSize = w.eventBufferSize from congrArg (fun u : PerfUnwind Unit => u.eventBufferSize) henqueue]
  split
  · exact congrArg (fun u => [(⟨u, w.targetEventBufferSize / 2⟩ : FlushCall Unit)]) henqueue
  · rfl

theorem roundFlushes_bare (u : PerfUnwind σ) :
    u.roundFlushes.map FlushCall.bare = u.bare.roundFlushes.map FlushCall.bare := by
  have hround (ρ : Type) (v : PerfUnwind ρ) : v.roundFlushes.map FlushCall.bare =
      if v.targetEventBufferSize = 0 then [⟨v.bare, v.eventBufferSize / 2⟩] else [] := by
    unfold roundFlushes
    cases v.stats.enabled <;> exact apply_ite (List.map FlushCall.bare) _ _ _
  rw [hround, hround, bare_bare]
  rfl

/-- **The flushes of an operation** are those with nothing behind the unwinder. -/
theorem flushes_bare {u : PerfUnwind σ} (h : u.Balanced) (op : Op) :
    (u.flushes B op).map FlushCall.bare = (u.bare.flushes discard op).map FlushCall.bare := by
  cases op with
  | registerElf mmap => exact bufferFlushes_bare u _
  | comm comm => exact bufferFlushes_bare (u.resolveString B comm.comm).1 (.task
      { pid := comm.pid, tid := comm.tid, time := comm.time, cpu := comm.cpu,
        type := .command (u.resolveString B comm.comm).2 })
  | lost lost => exact bufferFlushes_bare u _
  | sample sample => exact bufferFlushes_bare u _
  | fork fork => exact bufferFlushes_bare u _
  | exit exit => exact bufferFlushes_bare u _
  | contextSwitch contextSwitch => exact bufferFlushes_bare u _
  | finishedRound => exact roundFlushes_bare u
  | finalize =>
    have hfinal : FlushCall.bare ⟨u.finishedRound B, 0⟩ = FlushCall.bare ⟨u.bare.finishedRound discard, 0⟩ :=
      congrArg (fun v => (⟨v, 0⟩ : FlushCall Unit)) (finishedRound_bare h)
    rw [show u.flushes B .finalize = u.roundFlushes ++ [⟨u.finishedRound B, 0⟩] from rfl,
      show u.bare.flushes discard .finalize = u.bare.roundFlushes ++ [⟨u.bare.finishedRound discard, 0⟩] from rfl,
      List.map_append, List.map_append, roundFlushes_bare, List.map_singleton, List.map_singleton, hfinal]
  | _ => rfl

theorem eventBufferSize_enqueue (u : PerfUnwind σ) (event : Event) :
    (u.enqueue event).eventBufferSize = u.eventBufferSize + event.size := by
  unfold enqueue append Stats.addEventTime
  cases event <;> dsimp only <;> split <;> rfl

theorem starts_bare (u : PerfUnwind σ) (op : Op) : u.starts B op = u.bare.starts discard op := by
  have hbuffered (v : PerfUnwind σ) (w : PerfUnwind Unit) (event event' : Event) (hevent : event.size = event'.size)
      (hsize : v.eventBufferSize = w.eventBufferSize) : (v.enqueue event).eventBufferSize =
        (w.enqueue event').eventBufferSize := by
    rw [eventBufferSize_enqueue, eventBufferSize_enqueue, hevent, hsize]
  unfold starts
  cases op with
  | finishedRound => rfl
  | attr attr => rfl
  | features features => rfl
  | tracing tracingData => rfl
  | setMaxEventBufferSize size => rfl
  | setTargetEventBufferSize size => rfl
  | finalize => rfl
  | _ => exact congrArg (fun size => [Happening.buffered _ size]) (hbuffered _ _ _ _ rfl rfl)

/-- **What happens in an operation** happens with nothing behind the unwinder. -/
theorem happenings_bare {u : PerfUnwind σ} (h : u.Balanced) (op : Op) :
    u.happenings B op = u.bare.happenings discard op := by
  have hreport (ρ : Type) (C : Backend ρ) (v : PerfUnwind ρ) (hv : v.Balanced) :
      (v.flushes C op).map (fun call => Happening.flushed (call.report C)) =
        ((v.flushes C op).map FlushCall.bare).map fun call => Happening.flushed (call.report discard) := by
    rw [List.map_map]
    exact List.map_congr_left fun call hcall =>
      congrArg Happening.flushed (FlushCall.report_bare (flushes_balanced hv op call hcall))
  unfold happenings
  rw [starts_bare, hreport σ B u h, hreport Unit discard u.bare (balanced_bare h), flushes_bare h]

/-- **What happens in a run** depends on neither the mode nor what is behind the unwinder. -/
theorem runHappenings_bare {C : Backend τ} : ∀ (ops : List Op) {u : PerfUnwind σ} {v : PerfUnwind τ},
    u.Balanced → v.Balanced → u.bare = v.bare → u.runHappenings B ops = v.runHappenings C ops
  | [], _, _, _, _, _ => rfl
  | op :: ops, u, v, hu, hv, h => by
    have hrest : (u.apply B op).bare = (v.apply C op).bare := by rw [apply_bare hu, apply_bare hv, h]
    rw [runHappenings, runHappenings, happenings_bare hu, happenings_bare hv, h]
    exact congrArg (_ ++ ·) (runHappenings_bare ops (run_balanced [op] hu) (run_balanced [op] hv) hrest)

/-! ## What the statistics see

The loops of a flush leave the buffers as they are until it erases what they passed. -/

def queues (u : PerfUnwind σ) : List PerfRecordSample × List PerfRecordMmap × List TaskEvent :=
  (u.sampleBuffer, u.mmapBuffer, u.taskEventsBuffer)

@[simp] theorem queues_callUnlessStats (u : PerfUnwind σ) (x : Call) :
    (u.callUnlessStats B x).queues = u.queues := by
  unfold callUnlessStats
  split <;> rfl

@[simp] theorem queues_call (u : PerfUnwind σ) (x : Call) : (u.call B x).queues = u.queues := rfl

@[simp] theorem queues_eventBufferSize (u : PerfUnwind σ) (n : UInt32) :
    ({ u with eventBufferSize := n } : PerfUnwind σ).queues = u.queues := rfl

theorem queues_forwardMmapBuffer (t : UInt64) : ∀ (u : PerfUnwind σ) (mmaps : List PerfRecordMmap),
    (forwardMmapBuffer B t u mmaps).1.queues = u.queues
  | u, [] => rfl
  | u, m :: mmaps => by
    unfold forwardMmapBuffer
    split
    · rw [queues_forwardMmapBuffer t, forwardMmap]
      simp
    · rfl

theorem queues_processTask (u : PerfUnwind σ) (mmaps : List PerfRecordMmap) (e : TaskEvent) :
    (u.processTask B mmaps e).1.queues = u.queues := by
  cases hs : u.stats.enabled with
  | true => simp [processTask, hs]
  | false =>
    rw [processTask_of_stats hs]
    unfold beforeSend
    cases e.forkedFrom with
    | some parentPid => exact queues_forwardMmapBuffer (B := B) e.time u mmaps
    | none => cases hd : e.endsProcess <;> simp

theorem queues_processTasks (t : UInt64) : ∀ (u : PerfUnwind σ) (mmaps : List PerfRecordMmap) (tasks : List TaskEvent),
    (processTasks B t u mmaps tasks).1.queues = u.queues
  | u, mmaps, [] => rfl
  | u, mmaps, e :: tasks => by
    unfold processTasks
    split
    · rw [queues_processTasks t, queues_processTask]
    · rfl

theorem queues_processSample (f : Flush σ) (s : PerfRecordSample) :
    (processSample B f s).unwind.queues = f.unwind.queues := by
  simp only [processSample, queues_eventBufferSize, queues_callUnlessStats, queues_forwardMmapBuffer,
    queues_processTasks]

theorem queues_sampleLoop (desired : UInt32) : ∀ (f : Flush σ) (samples : List PerfRecordSample),
    (sampleLoop B desired f samples).1.unwind.queues = f.unwind.queues
  | f, [] => rfl
  | f, s :: samples => by
    unfold sampleLoop
    split
    · split
      · rw [queues_sampleLoop desired, queues_processSample]
      · split
        · exact queues_forwardMmapBuffer _ f.unwind f.mmapIt
        · rw [queues_sampleLoop desired, queues_processSample]
          rfl
    · rfl

theorem queues_trailingLoop (desired : UInt32) : ∀ (u : PerfUnwind σ) (tasks : List TaskEvent),
    (trailingLoop B desired u tasks).1.queues = u.queues
  | u, [] => rfl
  | u, e :: tasks => by
    unfold trailingLoop
    split
    · rw [queues_trailingLoop desired, queues_eventBufferSize, queues_callUnlessStats]
    · rfl

/-- The sorted elements before a time are those before it. -/
theorem length_takeWhile_sortBy {α : Type} (time : α → UInt64) (t : UInt64) (l : List α) :
    ((sortBy time l).takeWhile fun a => time a < t).length = l.countP fun a => time a < t := by
  have hsorted : ∀ l : List α, l.Pairwise (StableSort.KeyLE time) →
      (l.takeWhile fun a => time a < t).length = l.countP fun a => time a < t := by
    intro l hl
    induction l with
    | nil => rfl
    | cons a l ih =>
      by_cases ha : time a < t
      · rw [List.takeWhile_cons, List.countP_cons, if_pos (decide_eq_true ha), if_pos (decide_eq_true ha),
          List.length_cons, ih hl.of_cons]
      · have hnone : ∀ b ∈ a :: l, ¬decide (time b < t) = true := by
          intro b hb hlt
          refine ha (Std.lt_of_le_of_lt ?_ (of_decide_eq_true hlt))
          rcases List.mem_cons.1 hb with rfl | hb
          · exact Std.le_refl _
          · exact List.rel_of_pairwise_cons hl hb
        rw [List.takeWhile_cons, if_neg (hnone a List.mem_cons_self), List.countP_eq_zero.2 hnone, List.length_nil]
  rw [hsorted _ (StableSort.sortBy_sorted time l)]
  exact (StableSort.sortBy_perm time l).countP_eq _

theorem stats_startFlush {u : PerfUnwind σ} (h : u.stats.enabled = true) : (u.startFlush B).unwind.stats =
    { u.stats with
      numTimeViolatingSamples := u.stats.numTimeViolatingSamples +
        .ofNat (u.sampleBuffer.countP fun s => s.time < u.lastFlushMaxTime)
      numTimeViolatingMmaps := u.stats.numTimeViolatingMmaps +
        .ofNat (u.mmapBuffer.countP fun m => m.time < u.lastFlushMaxTime) } := by
  have hstart : (u.startFlush B).unwind.stats = u.sortBuffers.countViolations.stats := by
    unfold startFlush
    dsimp only
    cases u.sortBuffers.countViolations.violatingMmap <;> rfl
  rw [hstart, ← length_takeWhile_sortBy, ← length_takeWhile_sortBy]
  unfold countViolations
  exact congrArg PerfUnwind.stats (if_pos h)

theorem stats_eraseUntil {u : PerfUnwind σ} (h : u.stats.enabled = true) (samples : List PerfRecordSample)
    (mmaps : List PerfRecordMmap) (tasks : List TaskEvent) : (u.eraseUntil samples mmaps tasks).stats =
      { u.stats with
        numBufferFlushes := u.stats.numBufferFlushes + 1
        maxSamplesPerFlush := max (.ofNat (u.sampleBuffer.length - samples.length)) u.stats.maxSamplesPerFlush
        maxMmapsPerFlush := max (.ofNat (u.mmapBuffer.length - mmaps.length)) u.stats.maxMmapsPerFlush
        maxTaskEventsPerFlush :=
          max (.ofNat (u.taskEventsBuffer.length - tasks.length)) u.stats.maxTaskEventsPerFlush } :=
  congrArg PerfUnwind.stats (if_pos h)

theorem queues_startFlush (u : PerfUnwind σ) : (u.startFlush B).unwind.queues = u.sortBuffers.queues := by
  have hcount : u.sortBuffers.countViolations.queues = u.sortBuffers.queues := by
    unfold countViolations
    split <;> rfl
  rw [← hcount]
  unfold startFlush
  dsimp only
  cases u.sortBuffers.countViolations.violatingMmap <;> rfl

/-- The loops of a flush count what they take. -/
theorem stats_flushLoops {u : PerfUnwind σ} (h : u.stats.enabled = true) (desired : UInt32) {v : PerfUnwind σ}
    (hv : (flushLoops B (u.startFlush B) desired).1 = v) : v.stats = u.stats.happen (.flushed
      { lateSamples := u.sampleBuffer.countP fun s => s.time < u.lastFlushMaxTime
        lateMmaps := u.mmapBuffer.countP fun m => m.time < u.lastFlushMaxTime
        samples := u.sampleBuffer.length - v.sampleBuffer.length
        mmaps := u.mmapBuffer.length - v.mmapBuffer.length
        tasks := u.taskEventsBuffer.length - v.taskEventsBuffer.length }) := by
  have hstart := stats_startFlush (B := B) h
  have hsettings := settings_sampleLoop (B := B) desired (u.startFlush B) (u.startFlush B).unwind.sampleBuffer
  have hqueues := (queues_sampleLoop (B := B) desired (u.startFlush B) (u.startFlush B).unwind.sampleBuffer).trans
    (queues_startFlush u)
  subst hv
  unfold flushLoops
  generalize sampleLoop B desired (u.startFlush B) (u.startFlush B).unwind.sampleBuffer = r at *
  obtain ⟨g, left⟩ := r
  have hframe := frame_trailingLoop (B := B) desired (g.leave desired) g.taskEventIt
  have hqueues' := (queues_trailingLoop (B := B) desired (g.leave desired) g.taskEventIt).trans hqueues
  dsimp only
  generalize trailingLoop B desired (g.leave desired) g.taskEventIt = t at *
  obtain ⟨hsamples, hrest⟩ := Prod.mk.inj hqueues'
  obtain ⟨hmmaps, htasks⟩ := Prod.mk.inj hrest
  have hstats : t.1.stats = (u.startFlush B).unwind.stats := (stats_of_frame hframe).trans (stats_of_settings hsettings)
  have henabled : t.1.stats.enabled = true := by
    rw [hstats, hstart]
    exact h
  have hlength {α : Type} (time : α → UInt64) (l : List α) : (sortBy time l).length = l.length :=
    (StableSort.sortBy_perm time l).length_eq
  rw [stats_eraseUntil henabled, hstats, hstart, hsamples, hmmaps, htasks, sortBuffers, hlength, hlength, hlength]
  rfl

/-- **A flush** is counted with what it finds and takes. -/
theorem stats_flushEventBuffer {u : PerfUnwind σ} (h : u.stats.enabled = true) (desired : UInt32) :
    (u.flushEventBuffer B desired).stats = u.stats.happen (.flushed (FlushCall.report B ⟨u, desired⟩)) := by
  have hcore := flushEventBuffer_core (B := B) u desired
  have hstats : (u.flushEventBuffer B desired).stats = (flushLoops B (u.startFlush B) desired).1.stats := by
    unfold flushEventBuffer
    dsimp only
    split
    · exact stats_setTargetEventBufferSize _ _
    · rfl
  unfold FlushCall.report FlushCall.result
  rw [hstats, stats_flushLoops h desired rfl,
    show (u.flushEventBuffer B desired).sampleBuffer = (flushLoops B (u.startFlush B) desired).1.sampleBuffer from
      congrArg Core.samples hcore,
    show (u.flushEventBuffer B desired).mmapBuffer = (flushLoops B (u.startFlush B) desired).1.mmapBuffer from
      congrArg Core.mmaps hcore,
    show (u.flushEventBuffer B desired).taskEventsBuffer = (flushLoops B (u.startFlush B) desired).1.taskEventsBuffer
      from congrArg Core.tasks hcore]

theorem stats_enqueue {u : PerfUnwind σ} (h : u.stats.enabled = true) (event : Event) : (u.enqueue event).stats =
    u.stats.happen (.buffered event.anonymous (u.enqueue event).eventBufferSize) := by
  rw [eventBufferSize_enqueue]
  unfold enqueue
  cases event with
  | sample s => exact congrArg PerfUnwind.stats (if_pos h)
  | mmap m => exact congrArg PerfUnwind.stats (if_pos h)
  | task e =>
    rw [Stats.happen, show (Event.anonymous (.task e)).time = (Event.task e).time from e.time_anonymous]
    exact congrArg PerfUnwind.stats (if_pos h)

theorem stats_bufferEvent {u : PerfUnwind σ} (h : u.stats.enabled = true) (event : Event) :
    (u.bufferEvent B event).stats =
      (Happening.buffered event.anonymous (u.enqueue event).eventBufferSize ::
        (u.bufferFlushes event).map fun call => .flushed (call.report B)).foldl Stats.happen u.stats := by
  have henqueue := stats_enqueue h event
  have henabled : (u.enqueue event).stats.enabled = true := by
    rw [henqueue, Stats.enabled_happen]
    exact h
  rw [List.foldl_cons, ← henqueue]
  unfold bufferEvent bufferFlushes
  dsimp only
  split
  · exact stats_flushEventBuffer henabled _
  · rfl

theorem stats_finishedRound {u : PerfUnwind σ} (h : u.stats.enabled = true) : (u.finishedRound B).stats =
    (Happening.round :: u.roundFlushes.map fun call => .flushed (call.report B)).foldl Stats.happen u.stats := by
  unfold finishedRound roundFlushes
  rw [if_pos h]
  dsimp only
  split
  · exact stats_flushEventBuffer (u := { u with stats := u.stats.finishedRound }) h _
  · split
    · exact stats_setTargetEventBufferSize _ 0
    · rfl

/-- **The statistics of an operation** count what happens in it … -/
theorem stats_apply {u : PerfUnwind σ} (h : u.stats.enabled = true) (op : Op) :
    (u.apply B op).stats = (u.happenings B op).foldl Stats.happen u.stats := by
  cases op with
  | registerElf mmap => exact stats_bufferEvent h _
  | comm comm => exact stats_bufferEvent (u := (u.resolveString B comm.comm).1) h _
  | lost lost => exact stats_bufferEvent h _
  | sample sample => exact stats_bufferEvent h _
  | fork fork => exact stats_bufferEvent h _
  | exit exit => exact stats_bufferEvent h _
  | contextSwitch contextSwitch => exact stats_bufferEvent h _
  | finishedRound => exact stats_finishedRound h
  | attr attr => exact stats_addAttributes u attr.attr attr.attr.name attr.ids
  | features features => exact stats_features u features
  | tracing tracingData => exact stats_tracing u tracingData
  | setMaxEventBufferSize size => exact stats_setMaxEventBufferSize u size
  | setTargetEventBufferSize size => exact stats_setTargetEventBufferSize u size
  | finalize =>
    have hround := stats_finishedRound (B := B) h
    have henabled : (u.finishedRound B).stats.enabled = true := by
      rw [hround, Stats.enabled_foldl_happen]
      exact h
    rw [show u.happenings B .finalize = (Happening.round :: u.roundFlushes.map fun call => .flushed (call.report B)) ++
      [.flushed (FlushCall.report B ⟨u.finishedRound B, 0⟩)] from by
        simp [happenings, starts, flushes, event?, Op.endsRound], List.foldl_concat, ← hround]
    exact stats_flushEventBuffer henabled 0

/-- … and those of a run what happens in the run. -/
theorem stats_run : ∀ (ops : List Op) {u : PerfUnwind σ}, u.stats.enabled = true →
    (u.run B ops).stats = (u.runHappenings B ops).foldl Stats.happen u.stats
  | [], _, _ => rfl
  | op :: ops, u, h => by
    have happly := stats_apply (B := B) h op
    have henabled : (u.apply B op).stats.enabled = true := by
      rw [happly, Stats.enabled_foldl_happen]
      exact h
    rw [runHappenings, List.foldl_append, ← happly]
    exact stats_run ops henabled

end PerfUnwind

/-! ## The summary -/

/-- The events of a run by its rounds: of those that ended, and of the one that goes on. -/
structure Rounds where
  ended : List (List Event) := []
  current : List Event := []

def Rounds.happen (r : Rounds) : Happening → Rounds
  | .buffered event _ => { r with current := r.current ++ [event] }
  | .round => { ended := r.ended ++ [r.current] }
  | .flushed _ => r

namespace Happening

def rounds (l : List Happening) : Rounds := l.foldl Rounds.happen {}

def report? : Happening → Option FlushReport
  | flushed r => some r
  | _ => none

def reports (l : List Happening) : List FlushReport := l.filterMap report?

def bufferSize? : Happening → Option Nat
  | buffered _ bufferSize => some bufferSize.toNat
  | _ => none

/-- The sizes of the buffers with each event that comes. -/
def bufferSizes (l : List Happening) : List Nat := l.filterMap bufferSize?

end Happening

/-- How many of the events are of a kind, as far as 32 bits count. -/
def countOf {α : Type} (kind? : Event → Option α) (events : List Event) : Nat :=
  events.countP (fun event => (kind? event).isSome) % 2 ^ 32

def sizeOf (events : List Event) : Nat := (events.map fun event => event.size.toNat).sum % 2 ^ 32

namespace Stats

/-- What is told of the rounds that ended: sums in 64 bits, and the largest in 32. -/
structure SumsRounds (s : Stats) (ended : List (List Event)) : Prop where
  numSamples : s.numSamples.toNat = (ended.map (countOf Event.sample?)).sum % 2 ^ 64
  numMmaps : s.numMmaps.toNat = (ended.map (countOf Event.mmap?)).sum % 2 ^ 64
  numRounds : s.numRounds.toNat = (ended.map fun _ => 1).sum % 2 ^ 64
  maxSamplesPerRound : s.maxSamplesPerRound.toNat = largest (ended.map (countOf Event.sample?))
  maxMmapsPerRound : s.maxMmapsPerRound.toNat = largest (ended.map (countOf Event.mmap?))
  maxTaskEventsPerRound : s.maxTaskEventsPerRound.toNat = largest (ended.map (countOf Event.task?))
  maxTotalEventSizePerRound : s.maxTotalEventSizePerRound.toNat = largest (ended.map sizeOf)

/-- What is told of the flushes. -/
structure SumsFlushes (s : Stats) (reports : List FlushReport) : Prop where
  numBufferFlushes : s.numBufferFlushes.toNat = (reports.map fun _ => 1).sum % 2 ^ 64
  numTimeViolatingSamples : s.numTimeViolatingSamples.toNat = (reports.map FlushReport.lateSamples).sum % 2 ^ 64
  numTimeViolatingMmaps : s.numTimeViolatingMmaps.toNat = (reports.map FlushReport.lateMmaps).sum % 2 ^ 64
  maxSamplesPerFlush : s.maxSamplesPerFlush.toNat = largest (reports.map fun r => r.samples % 2 ^ 32)
  maxMmapsPerFlush : s.maxMmapsPerFlush.toNat = largest (reports.map fun r => r.mmaps % 2 ^ 32)
  maxTaskEventsPerFlush : s.maxTaskEventsPerFlush.toNat = largest (reports.map fun r => r.tasks % 2 ^ 32)

/-- **What stats mode prints** of a run, but for the times. -/
structure Summary (s : Stats) (l : List Happening) : Prop where
  rounds : s.SumsRounds (Happening.rounds l).ended
  flushes : s.SumsFlushes (Happening.reports l)
  maxBufferSize : s.maxBufferSize.toNat = largest (Happening.bufferSizes l)

/-- What is counted of the round that goes on. -/
structure CountsRound (s : Stats) (current : List Event) : Prop where
  samples : s.numSamplesInRound.toNat = countOf Event.sample? current
  mmaps : s.numMmapsInRound.toNat = countOf Event.mmap? current
  tasks : s.numTaskEventsInRound.toNat = countOf Event.task? current
  size : s.totalEventSizePerRound.toNat = sizeOf current

variable {s : Stats} {l : List Happening}

open Happening

structure Counted (s : Stats) (l : List Happening) : Prop extends s.Summary l where
  current : s.CountsRound (Happening.rounds l).current

theorem counted_create : ({ enabled := true } : Stats).Counted [] where
  rounds := ⟨rfl, rfl, rfl, rfl, rfl, rfl, rfl⟩
  flushes := ⟨rfl, rfl, rfl, rfl, rfl, rfl⟩
  maxBufferSize := rfl
  current := ⟨rfl, rfl, rfl, rfl⟩

theorem rounds_concat (l : List Happening) (x : Happening) : rounds (l ++ [x]) = (rounds l).happen x :=
  List.foldl_concat ..

theorem reports_concat (l : List Happening) (x : Happening) : reports (l ++ [x]) = reports l ++ x.report?.toList := by
  rw [reports, List.filterMap_append]
  cases x <;> rfl

theorem bufferSizes_concat (l : List Happening) (x : Happening) :
    bufferSizes (l ++ [x]) = bufferSizes l ++ x.bufferSize?.toList := by
  rw [bufferSizes, List.filterMap_append]
  cases x <;> rfl

/-! A sum and a maximum, counted one by one. -/

theorem toNat_sum {c d : UInt64} {ns : List Nat} {n : Nat} (hc : c.toNat = ns.sum % 2 ^ 64)
    (hd : d.toNat = n % 2 ^ 64) : (c + d).toNat = (ns ++ [n]).sum % 2 ^ 64 := by
  rw [UInt64.toNat_add, hc, hd, List.sum_append, List.sum_singleton, ← Nat.add_mod]

theorem toNat_largest {c d : UInt32} {l : List Nat} {n : Nat} (hc : c.toNat = largest l) (hd : d.toNat = n) :
    (max c d).toNat = largest (l ++ [n]) := by
  rw [largest, List.foldl_concat, ← largest, ← hc, ← hd]
  show (if c ≤ d then d else c).toNat = _
  split
  · rename_i hle
    rw [Nat.max_eq_right (UInt32.le_iff_toNat_le.1 hle)]
  · rename_i hle
    rw [UInt32.le_iff_toNat_le] at hle
    omega

theorem toNat_largest' {c d : UInt32} {l : List Nat} {n : Nat} (hc : c.toNat = largest l) (hd : d.toNat = n) :
    (max d c).toNat = largest (l ++ [n]) := by
  have hcomm : max d c = max c d := by
    apply UInt32.toNat.inj
    rw [toNat_largest (l := [d.toNat]) (by simp [largest]) rfl, toNat_largest (l := [c.toNat]) (by simp [largest]) rfl]
    simp [largest, Nat.max_comm]
  rw [hcomm, toNat_largest hc hd]

theorem toNat_count {α : Type} {kind? : Event → Option α} {c : UInt32} {events : List Event} (event : Event)
    (hc : c.toNat = countOf kind? events) :
    (if (kind? event).isSome then c + 1 else c).toNat = countOf kind? (events ++ [event]) := by
  unfold countOf at *
  rw [List.countP_append, List.countP_singleton]
  split
  · rw [UInt32.toNat_add, hc]
    exact Nat.mod_add_mod ..
  · exact hc

variable (h : s.Counted l)

include h

/-- A flush is counted with what it reports. -/
theorem Counted.flushed (r : FlushReport) : (s.happen (.flushed r)).Counted (l ++ [.flushed r]) := by
  obtain ⟨⟨hrounds, hflushes, hsize⟩, hcurrent⟩ := h
  have hnone : rounds (l ++ [.flushed r]) = rounds l := rounds_concat l _
  refine ⟨⟨?rounds, ?flushes, ?size⟩, ?current⟩
  case rounds =>
    rw [hnone]
    exact { hrounds with }
  case flushes =>
    rw [reports_concat]
    constructor <;> rw [List.map_append]
    · exact toNat_sum hflushes.numBufferFlushes rfl
    · exact toNat_sum hflushes.numTimeViolatingSamples UInt64.toNat_ofNat'
    · exact toNat_sum hflushes.numTimeViolatingMmaps UInt64.toNat_ofNat'
    · exact toNat_largest' hflushes.maxSamplesPerFlush UInt32.toNat_ofNat'
    · exact toNat_largest' hflushes.maxMmapsPerFlush UInt32.toNat_ofNat'
    · exact toNat_largest' hflushes.maxTaskEventsPerFlush UInt32.toNat_ofNat'
  case size =>
    rw [bufferSizes_concat]
    exact hsize.trans (congrArg largest (List.append_nil _).symm)
  case current =>
    rw [hnone]
    exact { hcurrent with }

/-- A round is counted when it ends. -/
theorem Counted.round : (s.happen .round).Counted (l ++ [.round]) := by
  obtain ⟨⟨hrounds, hflushes, hsize⟩, hcurrent⟩ := h
  have hended : (rounds (l ++ [.round])).ended = (rounds l).ended ++ [(rounds l).current] := by
    rw [rounds_concat]
    rfl
  have hwide {c : UInt32} {n : Nat} (hc : c.toNat = n) : c.toUInt64.toNat = n % 2 ^ 64 := by
    have hlt := c.toNat_lt
    rw [UInt32.toNat_toUInt64, hc, Nat.mod_eq_of_lt (by omega)]
  refine ⟨⟨?rounds, ?flushes, ?size⟩, ?current⟩
  case rounds =>
    rw [hended]
    constructor <;> rw [List.map_append]
    · exact toNat_sum hrounds.numSamples (hwide hcurrent.samples)
    · exact toNat_sum hrounds.numMmaps (hwide hcurrent.mmaps)
    · exact toNat_sum hrounds.numRounds rfl
    · exact toNat_largest hrounds.maxSamplesPerRound hcurrent.samples
    · exact toNat_largest hrounds.maxMmapsPerRound hcurrent.mmaps
    · exact toNat_largest hrounds.maxTaskEventsPerRound hcurrent.tasks
    · exact toNat_largest hrounds.maxTotalEventSizePerRound hcurrent.size
  case flushes =>
    rw [reports_concat]
    exact (List.append_nil (reports l)).symm ▸ { hflushes with }
  case size =>
    rw [bufferSizes_concat]
    exact hsize.trans (congrArg largest (List.append_nil _).symm)
  case current =>
    rw [rounds_concat]
    exact ⟨rfl, rfl, rfl, rfl⟩

theorem Counted.addEventTime (time : UInt64) : (s.addEventTime time).Counted l := by
  obtain ⟨⟨hrounds, hflushes, hsize⟩, hcurrent⟩ := h
  unfold Stats.addEventTime
  split <;> exact ⟨⟨{ hrounds with }, { hflushes with }, hsize⟩, { hcurrent with }⟩

/-- An event is counted in the round that goes on. -/
theorem Counted.buffered (event : Event) (bufferSize : UInt32) :
    (s.happen (.buffered event bufferSize)).Counted (l ++ [.buffered event bufferSize]) := by
  obtain ⟨⟨hrounds, hflushes, hsize⟩, hcurrent⟩ := h
  refine Counted.addEventTime ⟨⟨?rounds, ?flushes, ?size⟩, ?current⟩ event.time
  case rounds =>
    rw [rounds_concat]
    cases event <;> exact { hrounds with }
  case flushes =>
    rw [reports_concat]
    refine (List.append_nil (reports l)).symm ▸ ?_
    cases event <;> exact { hflushes with }
  case size =>
    rw [bufferSizes_concat]
    exact toNat_largest' hsize rfl
  case current =>
    have hbytes : (s.totalEventSizePerRound + event.size).toNat = sizeOf ((rounds l).current ++ [event]) := by
      rw [UInt32.toNat_add, hcurrent.size, sizeOf, sizeOf, List.map_append, List.sum_append]
      exact Nat.mod_add_mod ..
    rw [rounds_concat]
    have hsamples := toNat_count event hcurrent.samples
    have hmmaps := toNat_count event hcurrent.mmaps
    have htasks := toNat_count event hcurrent.tasks
    cases event <;> exact ⟨hsamples, hmmaps, htasks, hbytes⟩

/-- **What happens is counted.** -/
theorem Counted.happen (x : Happening) : (s.happen x).Counted (l ++ [x]) := by
  cases x with
  | buffered event bufferSize => exact h.buffered event bufferSize
  | round => exact h.round
  | flushed r => exact h.flushed r

omit h in
theorem counted_foldl (l : List Happening) : (l.foldl Stats.happen { enabled := true }).Counted l := by
  induction l using List.reverseRecOn with
  | nil => exact counted_create
  | append_singleton l x ih =>
    rw [List.foldl_concat]
    exact ih.happen x

end Stats

namespace PerfUnwind

variable {σ τ : Type}

/-- **What stats mode prints of a run** is a summary of what happens in the run that sends what it finds. -/
theorem run_summary (B : Backend σ) (C : Backend τ) (back : σ) (back' : τ) (targetSize maxSize : UInt32)
    (ops : List Op) : ((configured back true targetSize maxSize).run B ops).stats.Summary
      ((configured back' false targetSize maxSize).runHappenings C ops) := by
  have hstart := stats_configured back true targetSize maxSize
  have hrun := stats_run (B := B) ops (congrArg Stats.enabled hstart)
  have hsame : (configured back true targetSize maxSize).runHappenings B ops =
      (configured back' false targetSize maxSize).runHappenings C ops :=
    runHappenings_bare ops (configured_balanced ..) (configured_balanced ..)
      ((bare_configured ..).trans (bare_configured ..).symm)
  rw [hrun, hstart, hsame]
  exact (Stats.counted_foldl _).toSummary

end PerfUnwind

end PerfParser
