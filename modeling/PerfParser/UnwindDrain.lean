import PerfParser.UnwindOrder
import Mathlib.Algebra.Ring.Nat
import Mathlib.Data.List.Infix
/-!
# UnwindDrain — the size of the buffers, and what the last flush leaves in them

`m_eventBufferSize` is the size of the buffered events modulo 2^32, at every point of every run.  So a flush down to
nothing empties the buffers, unless it stops at a sample because an event before it violates the time order
(`flushEventBuffer_drains`), and `finalize` loses events in exactly that case.
-/
namespace PerfParser

open StableSort (Queued sortBy)

/-! ## Sizes -/

def bytes {α : Type} (size : α → UInt32) (l : List α) : Nat := (l.map (fun a => (size a).toNat)).sum

@[simp] theorem bytes_nil {α : Type} (size : α → UInt32) : bytes size [] = 0 := rfl

@[simp] theorem bytes_cons {α : Type} (size : α → UInt32) (a : α) (l : List α) :
    bytes size (a :: l) = bytes size l + (size a).toNat := by
  simp [bytes, Nat.add_comm]

@[simp] theorem bytes_append {α : Type} (size : α → UInt32) (l l' : List α) :
    bytes size (l ++ l') = bytes size l + bytes size l' := by
  simp [bytes]

theorem bytes_perm {α : Type} (size : α → UInt32) {l l' : List α} (h : l.Perm l') : bytes size l = bytes size l' :=
  (h.map _).sum_nat

/-- The size of what waits in the buffers. -/
def bufferedBytes (samples : List PerfRecordSample) (mmaps : List PerfRecordMmap) (tasks : List TaskEvent) : Nat :=
  bytes (fun s : PerfRecordSample => s.size.toUInt32) samples + bytes (fun m : PerfRecordMmap => m.size.toUInt32) mmaps
    + bytes TaskEvent.size tasks

theorem bufferedBytes_sample (s : PerfRecordSample) (samples : List PerfRecordSample) (mmaps : List PerfRecordMmap)
    (tasks : List TaskEvent) :
    bufferedBytes (s :: samples) mmaps tasks = bufferedBytes samples mmaps tasks + s.size.toUInt32.toNat := by
  simp only [bufferedBytes, bytes_cons]
  omega

theorem bufferedBytes_mmap (samples : List PerfRecordSample) (m : PerfRecordMmap) (mmaps : List PerfRecordMmap)
    (tasks : List TaskEvent) :
    bufferedBytes samples (m :: mmaps) tasks = bufferedBytes samples mmaps tasks + m.size.toUInt32.toNat := by
  simp only [bufferedBytes, bytes_cons]
  omega

theorem bufferedBytes_task (samples : List PerfRecordSample) (mmaps : List PerfRecordMmap) (e : TaskEvent)
    (tasks : List TaskEvent) :
    bufferedBytes samples mmaps (e :: tasks) = bufferedBytes samples mmaps tasks + e.size.toNat := by
  simp only [bufferedBytes, bytes_cons]
  omega

theorem ofNat_add_sub (n : Nat) (x : UInt32) : UInt32.ofNat (n + x.toNat) - x = UInt32.ofNat n := by
  rw [UInt32.ofNat_add, UInt32.ofNat_toNat, UInt32.add_sub_cancel]

namespace PerfUnwind

variable {σ : Type} {B : Backend σ}

def bufferedBytes (u : PerfUnwind σ) : Nat :=
  PerfParser.bufferedBytes u.sampleBuffer u.mmapBuffer u.taskEventsBuffer

/-- `m_eventBufferSize` is the size of what is left in the buffers, modulo 2^32. -/
def Accounted (u : PerfUnwind σ) (samples : List PerfRecordSample) (mmaps : List PerfRecordMmap)
    (tasks : List TaskEvent) : Prop :=
  u.eventBufferSize = .ofNat (PerfParser.bufferedBytes samples mmaps tasks)

variable {samples : List PerfRecordSample} {mmaps : List PerfRecordMmap} {tasks : List TaskEvent}

theorem Accounted.pop_sample {u : PerfUnwind σ} {s : PerfRecordSample} (h : u.Accounted (s :: samples) mmaps tasks) :
    u.eventBufferSize - s.size.toUInt32 = .ofNat (PerfParser.bufferedBytes samples mmaps tasks) := by
  rw [h, bufferedBytes_sample, ofNat_add_sub]

theorem Accounted.pop_mmap {u : PerfUnwind σ} {m : PerfRecordMmap} (h : u.Accounted samples (m :: mmaps) tasks) :
    u.eventBufferSize - m.size.toUInt32 = .ofNat (PerfParser.bufferedBytes samples mmaps tasks) := by
  rw [h, bufferedBytes_mmap, ofNat_add_sub]

theorem Accounted.pop_task {u : PerfUnwind σ} {e : TaskEvent} (h : u.Accounted samples mmaps (e :: tasks)) :
    u.eventBufferSize - e.size = .ofNat (PerfParser.bufferedBytes samples mmaps tasks) := by
  rw [h, bufferedBytes_task, ofNat_add_sub]

/-! ## The loops keep the account -/

theorem forwardMmapBuffer_accounted (t : UInt64) : ∀ (u : PerfUnwind σ) (mmaps : List PerfRecordMmap),
    u.Accounted samples mmaps tasks →
    (forwardMmapBuffer B t u mmaps).1.Accounted samples (forwardMmapBuffer B t u mmaps).2 tasks
  | u, [], h => h
  | u, m :: mmaps, h => by
    unfold forwardMmapBuffer
    split
    · refine forwardMmapBuffer_accounted t _ mmaps ?_
      rw [Accounted, forwardMmap, ← h.pop_mmap]
      exact congrArg (· - _) (eventBufferSize_callUnlessStats u _)
    · exact h

theorem beforeSend_accounted {u : PerfUnwind σ} (h : u.Accounted samples mmaps tasks) (e : TaskEvent) :
    (u.beforeSend B mmaps e).1.Accounted samples (u.beforeSend B mmaps e).2 tasks := by
  unfold beforeSend
  cases e.forkedFrom with
  | some parentPid => exact forwardMmapBuffer_accounted (B := B) e.time u mmaps h
  | none => by_cases hd : e.endsProcess = true <;> simp only [hd] <;> exact h

theorem processTask_accounted {u : PerfUnwind σ} {e : TaskEvent} (h : u.Accounted samples mmaps (e :: tasks)) :
    (u.processTask B mmaps e).1.Accounted samples (u.processTask B mmaps e).2 tasks := by
  by_cases hs : u.stats.enabled = true
  · simp only [processTask, hs, if_true]
    exact h.pop_task
  · rw [processTask_of_stats (Bool.eq_false_of_not_eq_true hs)]
    exact (beforeSend_accounted (B := B) h e).pop_task

theorem processTasks_accounted (t : UInt64) : ∀ (u : PerfUnwind σ) (mmaps : List PerfRecordMmap)
    (tasks : List TaskEvent), u.Accounted samples mmaps tasks →
    (processTasks B t u mmaps tasks).1.Accounted samples (processTasks B t u mmaps tasks).2.1
      (processTasks B t u mmaps tasks).2.2
  | u, mmaps, [], h => h
  | u, mmaps, e :: tasks, h => by
    unfold processTasks
    split
    · exact processTasks_accounted t _ _ tasks (processTask_accounted h)
    · exact h

theorem processSample_accounted {f : Flush σ} {s : PerfRecordSample}
    (h : f.unwind.Accounted (s :: samples) f.mmapIt f.taskEventIt) :
    (processSample B f s).unwind.Accounted samples (processSample B f s).mmapIt (processSample B f s).taskEventIt := by
  have htasks := processTasks_accounted (B := B) s.time f.unwind f.mmapIt f.taskEventIt h
  have hforward := forwardMmapBuffer_accounted (B := B) s.time _ _ htasks
  rw [Accounted, processSample, ← hforward.pop_sample]
  exact congrArg (· - _) (eventBufferSize_callUnlessStats _ _)

theorem sampleLoop_accounted (desired : UInt32) : ∀ (f : Flush σ) (samples : List PerfRecordSample),
    f.unwind.Accounted samples f.mmapIt f.taskEventIt →
    (sampleLoop B desired f samples).1.unwind.Accounted (sampleLoop B desired f samples).2
      (sampleLoop B desired f samples).1.mmapIt (sampleLoop B desired f samples).1.taskEventIt
  | f, [], h => h
  | f, s :: samples, h => by
    unfold sampleLoop
    split
    · split
      · exact sampleLoop_accounted desired _ samples
          (processSample_accounted (f := { f with violatesTimeOrder := true }) h)
      · split
        · exact forwardMmapBuffer_accounted (B := B) f.unwind.lastFlushMaxTime f.unwind f.mmapIt h
        · exact sampleLoop_accounted desired _ samples
            (processSample_accounted (f := { f with unwind := { f.unwind with lastFlushMaxTime := s.time } }) h)
    · exact h

theorem trailingLoop_accounted (desired : UInt32) : ∀ (u : PerfUnwind σ) (tasks : List TaskEvent),
    u.Accounted samples mmaps tasks →
    (trailingLoop B desired u tasks).1.Accounted samples mmaps (trailingLoop B desired u tasks).2
  | u, [], h => h
  | u, e :: tasks, h => by
    unfold trailingLoop
    split
    · refine trailingLoop_accounted desired _ tasks ?_
      rw [Accounted, ← h.pop_task]
      exact congrArg (· - _) (eventBufferSize_callUnlessStats u _)
    · exact h

/-! ## Runs keep the account -/

/-- **The size of the buffers is what `m_eventBufferSize` says**, modulo 2^32. -/
def Balanced (u : PerfUnwind σ) : Prop := u.Accounted u.sampleBuffer u.mmapBuffer u.taskEventsBuffer

/-- The flush that is about to run its loops over sorted buffers. -/
structure Flush.Sorted (f : Flush σ) (u : PerfUnwind σ) : Prop where
  size : f.unwind.eventBufferSize = u.eventBufferSize
  samples : f.unwind.sampleBuffer = sortBy (fun s : PerfRecordSample => s.time) u.sampleBuffer
  mmaps : f.mmapIt = sortBy (fun m : PerfRecordMmap => m.time) u.mmapBuffer
  tasks : f.taskEventIt = sortBy TaskEvent.time u.taskEventsBuffer

theorem startFlush_sorted (u : PerfUnwind σ) : (u.startFlush B).Sorted u := by
  have hcount : u.sortBuffers.countViolations.core = u.sortBuffers.core ∧
      u.sortBuffers.countViolations.eventBufferSize = u.eventBufferSize := by
    unfold countViolations
    split <;> exact ⟨rfl, rfl⟩
  obtain ⟨hcore, hsize⟩ := hcount
  unfold startFlush
  dsimp only
  generalize u.sortBuffers.countViolations = v at *
  refine ⟨?_, ?_, congrArg Core.mmaps hcore, congrArg Core.tasks hcore⟩
  · cases v.violatingMmap <;> exact hsize
  · cases v.violatingMmap <;> exact congrArg Core.samples hcore

theorem bufferedBytes_sort (u : PerfUnwind σ) :
    PerfParser.bufferedBytes (sortBy (fun s : PerfRecordSample => s.time) u.sampleBuffer)
      (sortBy (fun m : PerfRecordMmap => m.time) u.mmapBuffer) (sortBy TaskEvent.time u.taskEventsBuffer) =
    u.bufferedBytes := by
  unfold bufferedBytes PerfParser.bufferedBytes
  rw [bytes_perm _ (StableSort.sortBy_perm _ u.sampleBuffer), bytes_perm _ (StableSort.sortBy_perm _ u.mmapBuffer),
    bytes_perm _ (StableSort.sortBy_perm _ u.taskEventsBuffer)]

theorem startFlush_accounted {u : PerfUnwind σ} (h : u.Balanced) : (u.startFlush B).unwind.Accounted
    (u.startFlush B).unwind.sampleBuffer (u.startFlush B).mmapIt (u.startFlush B).taskEventIt := by
  have hs := startFlush_sorted (B := B) u
  rw [Accounted, hs.size, hs.samples, hs.mmaps, hs.tasks, bufferedBytes_sort]
  exact h

theorem eraseUntil_balanced {u : PerfUnwind σ} (h : u.Accounted samples mmaps tasks) :
    (u.eraseUntil samples mmaps tasks).Balanced := by
  unfold eraseUntil countFlush
  dsimp only
  split <;> exact h

theorem flushLoops_balanced {f : Flush σ} (h : f.unwind.Accounted f.unwind.sampleBuffer f.mmapIt f.taskEventIt)
    (desired : UInt32) : (flushLoops B f desired).1.Balanced :=
  eraseUntil_balanced (trailingLoop_accounted (B := B) desired _ _
    (sampleLoop_accounted (B := B) desired f f.unwind.sampleBuffer h))

theorem balanced_of_core {u v : PerfUnwind σ} (hc : v.core = u.core) (hs : v.eventBufferSize = u.eventBufferSize)
    (h : u.Balanced) : v.Balanced := by
  have hsamples : v.sampleBuffer = u.sampleBuffer := congrArg Core.samples hc
  have hmmaps : v.mmapBuffer = u.mmapBuffer := congrArg Core.mmaps hc
  have htasks : v.taskEventsBuffer = u.taskEventsBuffer := congrArg Core.tasks hc
  rw [Balanced, Accounted, hs, hsamples, hmmaps, htasks]
  exact h

theorem flushEventBuffer_balanced {u : PerfUnwind σ} (h : u.Balanced) (desired : UInt32) :
    (u.flushEventBuffer B desired).Balanced := by
  have hloops := flushLoops_balanced (B := B) (startFlush_accounted (B := B) h) desired
  unfold flushEventBuffer
  dsimp only
  split
  · exact balanced_of_core (core_growBuffer _ _) (growBuffer_keeps _ _).2.2 hloops
  · exact hloops

theorem Quiets.balanced {u v : PerfUnwind σ} (hq : Quiets B u v) (h : u.Balanced) : v.Balanced := by
  obtain ⟨hs, hm, ht, hsize⟩ := Quiets.buffers hq
  unfold Balanced Accounted
  rw [hs, hm, ht, hsize]
  exact h

theorem enqueue_balanced {u : PerfUnwind σ} (h : u.Balanced) (event : Event) : (u.enqueue event).Balanced := by
  have hsum : ∀ n : Nat, n = u.bufferedBytes + event.size.toNat → u.eventBufferSize + event.size = .ofNat n := by
    rintro n rfl
    rw [UInt32.ofNat_add, UInt32.ofNat_toNat]
    exact congrArg (· + _) h
  unfold enqueue append Balanced Accounted
  cases event <;> dsimp only <;> split <;>
    exact hsum _ (by simp [PerfParser.bufferedBytes, bufferedBytes, Event.size]; omega)

theorem enqueueAll_balanced : ∀ (events : List Event) {u : PerfUnwind σ}, u.Balanced → (u.enqueueAll events).Balanced
  | [], _, h => h
  | event :: events, _, h => enqueueAll_balanced events (enqueue_balanced h event)

/-- **Every run keeps the account**, in stats mode too. -/
theorem run_balanced : ∀ (ops : List Op) {u : PerfUnwind σ}, u.Balanced → (u.run B ops).Balanced
  | [], _, h => h
  | op :: ops, u, h => by
    obtain ⟨v, sizes, hq, -, he⟩ := apply_shape (B := B) u op
    have happly : (u.apply B op).Balanced := by
      rw [he]
      exact flushAll_induction (P := Balanced) (fun desired h => flushEventBuffer_balanced h desired) sizes
        (enqueueAll_balanced _ (hq.balanced h))
    exact run_balanced ops happly

theorem finishedRound_balanced {u : PerfUnwind σ} (h : u.Balanced) : (u.finishedRound B).Balanced :=
  run_balanced [.finishedRound] h

/-! ## The last flush -/

theorem bytes_suffix {α : Type} (size : α → UInt32) {l l' : List α} (h : l <:+ l') : bytes size l ≤ bytes size l' := by
  obtain ⟨t, rfl⟩ := h
  rw [bytes_append]
  exact Nat.le_add_left _ _

theorem bufferedBytes_suffix {samples' : List PerfRecordSample} {mmaps' : List PerfRecordMmap} {tasks' : List TaskEvent}
    (hs : samples' <:+ samples) (hm : mmaps' <:+ mmaps) (ht : tasks' <:+ tasks) :
    PerfParser.bufferedBytes samples' mmaps' tasks' ≤ PerfParser.bufferedBytes samples mmaps tasks :=
  Nat.add_le_add (Nat.add_le_add (bytes_suffix _ hs) (bytes_suffix _ hm)) (bytes_suffix _ ht)

theorem processSample_suffix (f : Flush σ) (s : PerfRecordSample) :
    (processSample B f s).mmapIt <:+ f.mmapIt ∧ (processSample B f s).taskEventIt <:+ f.taskEventIt := by
  obtain ⟨hm, ht⟩ := processTasks_suffix (B := B) s.time f.unwind f.mmapIt f.taskEventIt
  exact ⟨(forwardMmapBuffer_suffix s.time _ _).trans hm, ht⟩

theorem sampleLoop_suffix (desired : UInt32) : ∀ (f : Flush σ) (samples : List PerfRecordSample),
    (sampleLoop B desired f samples).2 <:+ samples ∧ (sampleLoop B desired f samples).1.mmapIt <:+ f.mmapIt ∧
      (sampleLoop B desired f samples).1.taskEventIt <:+ f.taskEventIt
  | f, [] => ⟨List.suffix_refl _, List.suffix_refl _, List.suffix_refl _⟩
  | f, s :: samples => by
    have hgo : ∀ g : Flush σ, g.mmapIt = f.mmapIt → g.taskEventIt = f.taskEventIt →
        (sampleLoop B desired (processSample B g s) samples).2 <:+ s :: samples ∧
          (sampleLoop B desired (processSample B g s) samples).1.mmapIt <:+ f.mmapIt ∧
          (sampleLoop B desired (processSample B g s) samples).1.taskEventIt <:+ f.taskEventIt := by
      intro g hm ht
      obtain ⟨hs, hm', ht'⟩ := sampleLoop_suffix desired (processSample B g s) samples
      obtain ⟨hm'', ht''⟩ := processSample_suffix (B := B) g s
      exact ⟨hs.trans (List.suffix_cons s samples), hm ▸ hm'.trans hm'', ht ▸ ht'.trans ht''⟩
    unfold sampleLoop
    split
    · split
      · exact hgo { f with violatesTimeOrder := true } rfl rfl
      · split
        · exact ⟨List.suffix_refl _, forwardMmapBuffer_suffix _ _ _, List.suffix_refl _⟩
        · exact hgo { f with unwind := { f.unwind with lastFlushMaxTime := s.time } } rfl rfl
    · exact ⟨List.suffix_refl _, List.suffix_refl _, List.suffix_refl _⟩

theorem Accounted.toNat {u : PerfUnwind σ} (h : u.Accounted samples mmaps tasks)
    (hfit : PerfParser.bufferedBytes samples mmaps tasks < 2 ^ 32) :
    u.eventBufferSize.toNat = PerfParser.bufferedBytes samples mmaps tasks := by
  rw [h, UInt32.toNat_ofNat', Nat.mod_eq_of_lt hfit]

/-- Where the loop over the samples stops at a sample in order after a violation of the time order. -/
def Breaks (violated : Bool) (last : UInt64) (samples : List PerfRecordSample) : Prop :=
  ∃ s ∈ samples, last ≤ s.time ∧ (violated = true ∨ ∃ s' ∈ samples, s'.time < last)

theorem breaks_late {violated : Bool} {last : UInt64} {s : PerfRecordSample} (h : s.time < last) :
    Breaks violated last (s :: samples) ↔ Breaks true last samples := by
  constructor
  · rintro ⟨x, hx, hle, -⟩
    rcases List.mem_cons.1 hx with rfl | hx
    · exact absurd h (UInt64.not_lt.2 hle)
    · exact ⟨x, hx, hle, .inl rfl⟩
  · rintro ⟨x, hx, hle, -⟩
    exact ⟨x, List.mem_cons_of_mem s hx, hle, .inr ⟨s, List.mem_cons_self, h⟩⟩

theorem not_breaks_sorted {last : UInt64} {s : PerfRecordSample} (hle : last ≤ s.time)
    (hs : Sorted (fun s : PerfRecordSample => s.time) (s :: samples)) {l : List PerfRecordSample}
    (hl : l ⊆ s :: samples) :
    ¬Breaks false last l := by
  rintro ⟨-, -, -, h | ⟨x, hx, hlt⟩⟩
  · cases h
  · rcases List.mem_cons.1 (hl hx) with rfl | hx
    · exact UInt64.not_lt.2 hle hlt
    · exact UInt64.not_lt.2 (Std.le_trans hle (List.rel_of_pairwise_cons hs hx)) hlt

/-- **The loop over the samples drains them**, unless it stops after a violation of the time order. -/
theorem sampleLoop_drains : ∀ (f : Flush σ) {samples : List PerfRecordSample},
    Sorted (fun s : PerfRecordSample => s.time) samples → f.unwind.Accounted samples f.mmapIt f.taskEventIt →
    PerfParser.bufferedBytes samples f.mmapIt f.taskEventIt < 2 ^ 32 → (∀ s ∈ samples, 0 < s.size.toUInt32.toNat) →
    ((sampleLoop B 0 f samples).2 = [] ↔ ¬Breaks f.violatesTimeOrder f.unwind.lastFlushMaxTime samples)
  | f, [], _, _, _, _ => ⟨fun _ ⟨_, hs, _⟩ => List.not_mem_nil hs, fun _ => rfl⟩
  | f, s :: samples, hs, hacc, hfit, hpos => by
    have hsize : f.unwind.eventBufferSize > 0 := by
      have hs := hpos s List.mem_cons_self
      rw [gt_iff_lt, UInt32.lt_iff_toNat_lt, hacc.toNat hfit, bufferedBytes_sample]
      exact Nat.lt_of_lt_of_le hs (Nat.le_add_left _ _)
    have hgo : ∀ g : Flush σ, g.mmapIt = f.mmapIt → g.taskEventIt = f.taskEventIt →
        g.unwind.eventBufferSize = f.unwind.eventBufferSize →
        ((sampleLoop B 0 (processSample B g s) samples).2 = [] ↔
          ¬Breaks g.violatesTimeOrder g.unwind.lastFlushMaxTime samples) := by
      intro g hm ht hsz
      have hacc' : g.unwind.Accounted (s :: samples) g.mmapIt g.taskEventIt := by
        rw [Accounted, hsz, hm, ht]
        exact hacc
      obtain ⟨hm', ht'⟩ := processSample_suffix (B := B) g s
      have hle := bufferedBytes_suffix (List.suffix_cons s samples) hm' ht'
      rw [hm, ht] at hle
      have := sampleLoop_drains (processSample B g s) hs.of_cons (processSample_accounted hacc')
        (Nat.lt_of_le_of_lt hle hfit) (fun s' hs' => hpos s' (List.mem_cons_of_mem s hs'))
      rwa [lastFlushMaxTime_of_frame (frame_processSample g s)] at this
    unfold sampleLoop
    rw [if_pos hsize]
    by_cases hlt : s.time < f.unwind.lastFlushMaxTime
    · rw [if_pos hlt, breaks_late hlt]
      exact hgo { f with violatesTimeOrder := true } rfl rfl rfl
    · have hle : f.unwind.lastFlushMaxTime ≤ s.time := UInt64.not_lt.1 hlt
      rw [if_neg hlt]
      cases hviolates : f.violatesTimeOrder with
      | true =>
        rw [if_pos rfl]
        refine ⟨fun h => (List.cons_ne_nil _ _ h).elim, fun h => (h ⟨s, List.mem_cons_self, hle, .inl rfl⟩).elim⟩
      | false =>
        rw [if_neg Bool.false_ne_true]
        have hrest := hgo { f with unwind := { f.unwind with lastFlushMaxTime := s.time } } rfl rfl rfl
        dsimp only at hrest
        rw [hviolates] at hrest
        exact iff_of_true (hrest.2 (not_breaks_sorted (Std.le_refl _) hs (List.subset_cons_self s samples)))
          (not_breaks_sorted hle hs (List.Subset.refl _))

theorem trailingLoop_drains : ∀ (u : PerfUnwind σ) (tasks : List TaskEvent), u.Accounted samples mmaps tasks →
    PerfParser.bufferedBytes samples mmaps tasks < 2 ^ 32 → (trailingLoop B 0 u tasks).2 = []
  | u, [], _, _ => rfl
  | u, e :: tasks, hacc, hfit => by
    have hsize : u.eventBufferSize > 0 := by
      rw [gt_iff_lt, UInt32.lt_iff_toNat_lt, hacc.toNat hfit, bufferedBytes_task]
      exact Nat.lt_of_lt_of_le (by decide : 0 < (40 : UInt32).toNat) (Nat.le_add_left _ _)
    unfold trailingLoop
    rw [if_pos hsize]
    refine trailingLoop_drains _ tasks ?_ (Nat.lt_of_le_of_lt (bufferedBytes_suffix (List.suffix_refl _)
      (List.suffix_refl _) (List.suffix_cons e tasks)) hfit)
    rw [Accounted, ← hacc.pop_task]
    exact congrArg (· - _) (eventBufferSize_callUnlessStats u _)

/-- Why the loop over the samples ends. -/
theorem sampleLoop_ends (desired : UInt32) : ∀ (f : Flush σ) (samples : List PerfRecordSample),
    (sampleLoop B desired f samples).2 = [] ∨ (sampleLoop B desired f samples).1.violatesTimeOrder = true ∨
      ¬(sampleLoop B desired f samples).1.unwind.eventBufferSize > desired
  | f, [] => .inl rfl
  | f, s :: samples => by
    unfold sampleLoop
    split
    · split
      · exact sampleLoop_ends desired _ samples
      · split
        · rename_i hviolates
          exact .inr (.inl hviolates)
        · exact sampleLoop_ends desired _ samples
    · rename_i hsize
      exact .inr (.inr hsize)

/-- Nothing makes the last flush stop: all that is buffered is in order, or all samples are out of it. -/
def Drains (u : PerfUnwind σ) : Prop :=
  ((∀ s ∈ u.sampleBuffer, u.lastFlushMaxTime ≤ s.time) ∧ ∀ m ∈ u.mmapBuffer, u.lastFlushMaxTime ≤ m.time) ∨
    ∀ s ∈ u.sampleBuffer, s.time < u.lastFlushMaxTime

theorem drains_iff_not_breaks {u : PerfUnwind σ} {violated : Bool}
    (hviolated : violated = true ↔ ∃ m ∈ u.mmapBuffer, m.time < u.lastFlushMaxTime) :
    u.Drains ↔ ¬Breaks violated u.lastFlushMaxTime (sortBy (fun s : PerfRecordSample => s.time) u.sampleBuffer) := by
  simp only [Drains, Breaks, StableSort.mem_sortBy, hviolated]
  constructor
  · rintro (⟨hs, hm⟩ | hs) ⟨s, hmem, hle, hlate⟩
    · rcases hlate with ⟨m, hmm, hlt⟩ | ⟨s', hs', hlt⟩
      · exact UInt64.not_lt.2 (hm m hmm) hlt
      · exact UInt64.not_lt.2 (hs s' hs') hlt
    · exact UInt64.not_lt.2 hle (hs s hmem)
  · intro h
    by_cases hall : ∀ s ∈ u.sampleBuffer, s.time < u.lastFlushMaxTime
    · exact .inr hall
    · simp only [not_forall] at hall
      obtain ⟨s, hmem, hnot⟩ := hall
      have hle := UInt64.not_lt.1 hnot
      refine .inl ⟨fun s' hs' => UInt64.not_lt.1 fun hlt => ?_, fun m hm => UInt64.not_lt.1 fun hlt => ?_⟩
      · exact h ⟨s, hmem, hle, .inr ⟨s', hs', hlt⟩⟩
      · exact h ⟨s, hmem, hle, .inl ⟨m, hm, hlt⟩⟩

/-- **A flush down to nothing** leaves no task event, and no sample exactly where nothing makes it stop. -/
theorem flushEventBuffer_drains {u : PerfUnwind σ} (hstats : u.stats.enabled = false) (hb : u.Balanced)
    (hfit : u.bufferedBytes < 2 ^ 32) (hpos : ∀ s ∈ u.sampleBuffer, 0 < s.size.toUInt32.toNat) :
    (u.flushEventBuffer B 0).taskEventsBuffer = [] ∧ ((u.flushEventBuffer B 0).sampleBuffer = [] ↔ u.Drains) := by
  have hsorted := startFlush_sorted (B := B) u
  have hacc := startFlush_accounted (B := B) hb
  have hfit' : PerfParser.bufferedBytes (u.startFlush B).unwind.sampleBuffer (u.startFlush B).mmapIt
      (u.startFlush B).taskEventIt < 2 ^ 32 := by
    rw [hsorted.samples, hsorted.mmaps, hsorted.tasks, bufferedBytes_sort]
    exact hfit
  have hloop := sampleLoop_drains (B := B) (u.startFlush B)
    (by rw [hsorted.samples]; exact StableSort.sortBy_sorted _ _) hacc hfit'
    (fun s hs => hpos s (by rwa [hsorted.samples, StableSort.mem_sortBy] at hs))
  obtain ⟨hsuffix, hmsuffix, htsuffix⟩ := sampleLoop_suffix (B := B) 0 (u.startFlush B)
    (u.startFlush B).unwind.sampleBuffer
  have htrailing := trailingLoop_drains (B := B)
    ((sampleLoop B 0 (u.startFlush B) (u.startFlush B).unwind.sampleBuffer).1.leave 0) _
    (sampleLoop_accounted (B := B) 0 (u.startFlush B) (u.startFlush B).unwind.sampleBuffer hacc)
    (Nat.lt_of_le_of_lt (bufferedBytes_suffix hsuffix hmsuffix htsuffix) hfit')
  rw [lastFlushMaxTime_of_frame (frame_startFlush hstats), hsorted.samples,
    ← drains_iff_not_breaks (startFlush_violates u)] at hloop
  have hcore := flushEventBuffer_core (B := B) u 0
  have hsamples : (u.flushEventBuffer B 0).sampleBuffer =
      (sampleLoop B 0 (u.startFlush B) (u.startFlush B).unwind.sampleBuffer).2 := congrArg Core.samples hcore
  have htasks : (u.flushEventBuffer B 0).taskEventsBuffer = _ := congrArg Core.tasks hcore
  refine ⟨htasks.trans htrailing, ?_⟩
  rw [hsamples, hsorted.samples]
  exact hloop

/-! ## Runs that end with `finalize` -/

theorem create_balanced (back : σ) (lastSize maxSize targetSize : UInt32) :
    (create back lastSize maxSize targetSize).Balanced := rfl

/-- What a run passes in and what leaves the buffers, at its end. -/
structure Conserves (u : PerfUnwind σ) (events : List Event) : Prop where
  samples : (analysed u.trace).Perm (events.filterMap Event.sample?)
  tasks : (sent u.trace).Perm (events.filterMap Event.task?)
  noSamples : u.sampleBuffer = []
  noTasks : u.taskEventsBuffer = []

theorem conserves_of_empty {u : PerfUnwind σ} {events : List Event} (hq : u.core.Queues) (h : arrivals u.trace = events)
    (hs : u.sampleBuffer = []) (ht : u.taskEventsBuffer = []) : u.Conserves events where
  samples := by
    have hperm := hq.samples.perm
    rw [show u.core.samples = [] from hs, List.append_nil] at hperm
    exact h ▸ hperm
  tasks := by
    have hperm := hq.tasks.perm
    rw [show u.core.tasks = [] from ht, List.append_nil] at hperm
    exact h ▸ hperm
  noSamples := hs
  noTasks := ht

theorem run_append (u : PerfUnwind σ) (ops ops' : List Op) : u.run B (ops ++ ops') = (u.run B ops).run B ops' :=
  List.foldl_append ..

theorem passed_append : ∀ (u : PerfUnwind σ) (ops ops' : List Op),
    u.passed B (ops ++ ops') = u.passed B ops ++ (u.run B ops).passed B ops'
  | u, [], ops' => rfl
  | u, op :: ops, ops' => by
    rw [List.cons_append, passed, passed_append (u.apply B op) ops ops', passed, List.append_assoc]
    rfl

theorem run_snoc (u : PerfUnwind σ) (ops : List Op) (op : Op) : u.run B (ops ++ [op]) = (u.run B ops).apply B op :=
  run_append u ops [op]

theorem Quiets.bufferedBytes {u v : PerfUnwind σ} (hq : Quiets B u v) : v.bufferedBytes = u.bufferedBytes := by
  obtain ⟨hs, hm, ht, -⟩ := Quiets.buffers hq
  unfold PerfUnwind.bufferedBytes
  rw [hs, hm, ht]

theorem trailingLoop_suffix (desired : UInt32) : ∀ (u : PerfUnwind σ) (tasks : List TaskEvent),
    (trailingLoop B desired u tasks).2 <:+ tasks
  | u, [] => List.suffix_refl _
  | u, e :: tasks => by
    unfold trailingLoop
    split
    · exact (trailingLoop_suffix desired _ tasks).trans (List.suffix_cons e tasks)
    · exact List.suffix_refl _

/-- A flush only takes events out of the buffers. -/
theorem flushEventBuffer_bufferedBytes (u : PerfUnwind σ) (desired : UInt32) :
    (u.flushEventBuffer B desired).bufferedBytes ≤ u.bufferedBytes := by
  have hsorted := startFlush_sorted (B := B) u
  obtain ⟨hs, hm, ht⟩ := sampleLoop_suffix (B := B) desired (u.startFlush B) (u.startFlush B).unwind.sampleBuffer
  have ht' := trailingLoop_suffix (B := B) desired
    ((sampleLoop B desired (u.startFlush B) (u.startFlush B).unwind.sampleBuffer).1.leave desired)
    (sampleLoop B desired (u.startFlush B) (u.startFlush B).unwind.sampleBuffer).1.taskEventIt
  have hle := bufferedBytes_suffix hs hm (ht'.trans ht)
  rw [hsorted.samples, hsorted.mmaps, hsorted.tasks, bufferedBytes_sort, ← hsorted.samples] at hle
  have hcore := congrArg (fun c : Core σ => PerfParser.bufferedBytes c.samples c.mmaps c.tasks)
    (flushEventBuffer_core (B := B) u desired)
  exact Nat.le_trans (Nat.le_of_eq hcore) hle

theorem finishedRound_bufferedBytes (u : PerfUnwind σ) : (u.finishedRound B).bufferedBytes ≤ u.bufferedBytes := by
  obtain ⟨v, sizes, hq, hlen, he⟩ := finishedRound_shape (B := B) u
  rw [he, ← hq.bufferedBytes]
  cases sizes with
  | nil => exact Nat.le_refl _
  | cons desired sizes =>
    cases List.eq_nil_of_length_eq_zero (Nat.le_zero.1 (Nat.le_of_succ_le_succ hlen))
    exact flushEventBuffer_bufferedBytes v desired

/-- What a sample in the buffer was when it arrived. -/
theorem mem_passed_of_mem_sampleBuffer {back : σ} {lastSize maxSize targetSize : UInt32} {ops : List Op}
    {s : PerfRecordSample} (h : s ∈ ((create back lastSize maxSize targetSize).run B ops).sampleBuffer) :
    .sample s ∈ (create back lastSize maxSize targetSize).passed B ops := by
  have hq := run_invariant (B := B) (P := Core.Queues) Core.Move.queues back lastSize maxSize targetSize
    (create_queues back lastSize maxSize targetSize) ops
  have hmem : s ∈ arrivedSamples ((create back lastSize maxSize targetSize).run B ops).trace :=
    (hq.samples.mem_iff _ s).1 (List.mem_append_right _ h)
  rw [arrivedSamples, run_arrivals (B := B) ops rfl] at hmem
  obtain ⟨event, hevent, he⟩ := List.mem_filterMap.1 hmem
  cases event with
  | sample s' => cases he; simpa [create] using hevent
  | mmap m => cases he
  | task e => cases he

/-- An operation that buffers nothing passes nothing in. -/
theorem passed_quiet {u : PerfUnwind σ} {ops : List Op} {op : Op} (h : (u.run B ops).event? B op = none) :
    u.passed B (ops ++ [op]) = u.passed B ops := by
  rw [passed_append, passed, h]
  exact List.append_nil _

theorem mem_passed_size {back : σ} {lastSize maxSize targetSize : UInt32} {ops : List Op}
    (hsizes : ∀ event ∈ (create back lastSize maxSize targetSize).passed B ops, 8 ≤ event.size) :
    ∀ s ∈ ((create back lastSize maxSize targetSize).run B (ops ++ [.finishedRound])).sampleBuffer,
      0 < s.size.toUInt32.toNat := by
  intro s hs
  have hmem := mem_passed_of_mem_sampleBuffer hs
  rw [passed_quiet rfl] at hmem
  exact Nat.lt_of_lt_of_le (by decide) (UInt32.le_iff_toNat_le.1 (hsizes _ hmem))

/-- **`finalize` loses no event exactly where nothing makes its last flush stop.** -/
theorem finalize_conserves_iff (B : Backend σ) (back : σ) (lastSize maxSize targetSize : UInt32) (ops : List Op)
    (hsizes : ∀ event ∈ (create back lastSize maxSize targetSize).passed B ops, 8 ≤ event.size)
    (hfits : ((create back lastSize maxSize targetSize).run B ops).bufferedBytes < 2 ^ 32) :
    (((create back lastSize maxSize targetSize).run B ops).finalize B).Conserves
        ((create back lastSize maxSize targetSize).passed B ops) ↔
      (((create back lastSize maxSize targetSize).run B ops).finishedRound B).Drains := by
  have hround : ((create back lastSize maxSize targetSize).run B ops).finishedRound B = _ :=
    (run_snoc (B := B) (create back lastSize maxSize targetSize) ops .finishedRound).symm
  have hfinal : ((create back lastSize maxSize targetSize).run B ops).finalize B = _ :=
    (run_snoc (B := B) (create back lastSize maxSize targetSize) ops .finalize).symm
  have hpos := mem_passed_size hsizes
  rw [← hround] at hpos
  obtain ⟨htasks, hsamples⟩ := flushEventBuffer_drains (B := B)
    (u := ((create back lastSize maxSize targetSize).run B ops).finishedRound B)
    (by rw [hround]; exact run_stats back lastSize maxSize targetSize _)
    (finishedRound_balanced (run_balanced ops (create_balanced back lastSize maxSize targetSize)))
    (Nat.lt_of_le_of_lt (finishedRound_bufferedBytes _) hfits) hpos
  refine ⟨fun h => hsamples.1 h.noSamples, fun hdrains => ?_⟩
  have hempty := hsamples.2 hdrains
  have hq : (((create back lastSize maxSize targetSize).run B ops).finalize B).core.Queues := by
    rw [hfinal]
    exact run_invariant Core.Move.queues back lastSize maxSize targetSize
      (create_queues back lastSize maxSize targetSize) (ops ++ [.finalize])
  have harrivals : arrivals (((create back lastSize maxSize targetSize).run B ops).finalize B).trace =
      (create back lastSize maxSize targetSize).passed B ops := by
    rw [hfinal, create_arrivals, passed_quiet rfl]
  exact conserves_of_empty hq harrivals hempty htasks

/-- A back end that does nothing. -/
def discard : Backend Unit where
  resolveString back _ := (back, -1)
  exec _ back _ := back

def sampleAt (time : UInt64) : PerfRecordSample where
  header := { size := 8 }
  sampleId := { time := time }

/-- Three samples too late for the flush before them: `finalize` drops the last sample. -/
def lateSamples : List Op :=
  [.sample (sampleAt 10), .finishedRound, .sample (sampleAt 5), .sample (sampleAt 5), .sample (sampleAt 5),
    .sample (sampleAt 11)]

theorem finalize_conserves_inOrder :
    (((create () 0 0 0).run discard [.sample (sampleAt 10), .lost {}]).finalize discard).Conserves
        ((create () 0 0 0).passed discard [.sample (sampleAt 10), .lost {}]) ↔
      (((create () 0 0 0).run discard [.sample (sampleAt 10), .lost {}]).finishedRound discard).Drains :=
  finalize_conserves_iff discard () 0 0 0 _ (by decide) (by decide)

theorem finalize_loses_lateSamples : ¬∀ ops : List Op,
    (∀ event ∈ (create () 0 0 0).passed discard ops, 8 ≤ event.size) →
    (∀ pre, pre <+: ops → ((create () 0 0 0).run discard pre).bufferedBytes < 2 ^ 32) →
    (((create () 0 0 0).run discard ops).finalize discard).Conserves ((create () 0 0 0).passed discard ops) := by
  intro h
  have hprefixes : ∀ pre ∈ lateSamples.inits, ((create () 0 0 0).run discard pre).bufferedBytes < 2 ^ 32 := by decide
  have hempty := (h lateSamples (by decide) (fun pre hpre => hprefixes pre
    ((List.mem_inits pre lateSamples).2 hpre))).noSamples
  revert hempty
  decide

/-! ## Sorted samples -/

theorem passed_samples : ∀ (u : PerfUnwind σ) (ops : List Op),
    (u.passed B ops).filterMap Event.sample? = ops.filterMap Op.sample?
  | u, [] => rfl
  | u, op :: ops => by
    rw [passed, List.filterMap_append, passed_samples (u.apply B op) ops]
    cases op <;> rfl

/-- A flush down to nothing that counts no violation leaves no sample. -/
theorem flushEventBuffer_empties {u : PerfUnwind σ} (hb : u.Balanced) (hfit : u.bufferedBytes < 2 ^ 32)
    (hpos : ∀ s ∈ u.sampleBuffer, 0 < s.size.toUInt32.toNat) (hlate : u.violates B 0 = false) :
    (u.flushEventBuffer B 0).sampleBuffer = [] := by
  have hsorted := startFlush_sorted (B := B) u
  have hacc := sampleLoop_accounted (B := B) 0 (u.startFlush B) _ (startFlush_accounted hb)
  obtain ⟨hs, hm, ht⟩ := sampleLoop_suffix (B := B) 0 (u.startFlush B) (u.startFlush B).unwind.sampleBuffer
  have hle := bufferedBytes_suffix hs hm ht
  rw [hsorted.samples, hsorted.mmaps, hsorted.tasks, bufferedBytes_sort, ← hsorted.samples] at hle
  rw [show (u.flushEventBuffer B 0).sampleBuffer = _ from congrArg Core.samples (flushEventBuffer_core u 0)]
  rcases sampleLoop_ends (B := B) 0 (u.startFlush B) (u.startFlush B).unwind.sampleBuffer with hend | hend | hend
  · exact hend
  · exact absurd (hend.symm.trans hlate) (by decide)
  · -- the size is positive as long as a sample is left
    cases hleft : (sampleLoop B 0 (u.startFlush B) (u.startFlush B).unwind.sampleBuffer).2 with
    | nil => exact hleft
    | cons s samples =>
      have hmem : s ∈ u.sampleBuffer := by
        rw [← StableSort.mem_sortBy (fun s : PerfRecordSample => s.time), ← hsorted.samples]
        exact hs.subset (hleft ▸ List.mem_cons_self)
      have hsize := hacc.toNat (Nat.lt_of_le_of_lt hle hfit)
      rw [hleft, bufferedBytes_sample] at hsize
      have hpos' := hpos s hmem
      exact absurd (UInt32.lt_iff_toNat_lt.2 (by rw [hsize, UInt32.toNat_zero]; omega)) hend

theorem finishedRound_violations {u : PerfUnwind σ} (h : u.stats.enabled = false) (h0 : u.timeOrderViolations = 0) :
    (u.finishedRound B).timeOrderViolations = 0 ∨ (u.finishedRound B).timeOrderViolations = 1 := by
  obtain ⟨v, sizes, hq, hlen, he⟩ := finishedRound_shape (B := B) u
  obtain ⟨hs, hv, -⟩ := hq.steps true h
  obtain ⟨-, n, hn, hviolations, -⟩ := flushAll_steps (B := B) sizes hs
  rw [he, hviolations, hv, h0, UInt32.zero_add]
  rcases Nat.le_one_iff_eq_zero_or_eq_one.1 (Nat.le_trans hn hlen) with rfl | rfl
  · exact .inl rfl
  · exact .inr rfl

/-- Where `finalize` counts nothing, its last flush violates nothing. -/
theorem violates_finalize {u : PerfUnwind σ} (h : u.stats.enabled = false) (h0 : u.timeOrderViolations = 0)
    (hend : (u.finalize B).timeOrderViolations = 0) : (u.finishedRound B).violates B 0 = false := by
  have hflush := (flushEventBuffer_keeps (B := B) (u := u.finishedRound B) (apply_moves h .finishedRound).1 0).2
  rw [show (flushEventBuffer B _ 0).timeOrderViolations = 0 from hend] at hflush
  cases hlate : (u.finishedRound B).violates B 0 with
  | false => rfl
  | true =>
    rw [hlate, if_pos rfl] at hflush
    rcases finishedRound_violations (B := B) h h0 with h | h <;>
      exact absurd (hflush.trans (congrArg (· + 1) h)) (by decide)

/-- **A run that never counts a violation analyses the stable sort of its samples.** -/
theorem analysed_eq_sortBy (B : Backend σ) (back : σ) (lastSize maxSize targetSize : UInt32) (ops : List Op)
    (hsizes : ∀ event ∈ (create back lastSize maxSize targetSize).passed B ops, 8 ≤ event.size)
    (hfits : ((create back lastSize maxSize targetSize).run B ops).bufferedBytes < 2 ^ 32)
    (hviolations : ∀ pre, pre <+: ops ++ [.finalize] →
      ((create back lastSize maxSize targetSize).run B pre).timeOrderViolations = 0) :
    analysed (((create back lastSize maxSize targetSize).run B ops).finalize B).trace =
      sortBy (fun s : PerfRecordSample => s.time) (ops.filterMap Op.sample?) := by
  have hmoves := (run_moves (B := B) (ops ++ [.finalize]) (u := create back lastSize maxSize targetSize) rfl).2.2
    hviolations
  have hstart := hviolations ops (List.prefix_append _ _)
  have hend := hviolations (ops ++ [.finalize]) (List.prefix_refl _)
  have hpos := mem_passed_size hsizes
  have hround := run_snoc (B := B) (create back lastSize maxSize targetSize) ops .finishedRound
  rw [run_snoc] at hmoves hend
  rw [hround] at hpos
  have hlate := violates_finalize (run_stats back lastSize maxSize targetSize ops) hstart hend
  have hempty := flushEventBuffer_empties (B := B)
    (finishedRound_balanced (run_balanced ops (create_balanced back lastSize maxSize targetSize)))
    (Nat.lt_of_le_of_lt (finishedRound_bufferedBytes _) hfits) hpos hlate
  have hq := hmoves.preserve Core.Move.queues (create_queues back lastSize maxSize targetSize)
  have hsorted := hmoves.preserve Core.Move.samplesSorted ⟨List.Pairwise.nil, fun s hs => by cases hs⟩
  have harrivals : arrivals (((create back lastSize maxSize targetSize).run B ops).finalize B).trace =
      (create back lastSize maxSize targetSize).passed B ops := by
    rw [show finalize B _ = _ from (run_snoc (create back lastSize maxSize targetSize) ops .finalize).symm,
      create_arrivals, passed_quiet rfl]
  have hqueue := hq.samples
  rw [show Core.samples _ = [] from hempty] at hqueue
  have hresult := hqueue.eq_sortBy _ hsorted.sorted
  rw [← passed_samples (B := B) (create back lastSize maxSize targetSize) ops, ← harrivals]
  exact hresult

theorem analysed_eq_sortBy_unordered :
    analysed (((create () 0 64 32).run discard [.sample (sampleAt 7), .sample (sampleAt 3)]).finalize discard).trace =
      sortBy (fun s : PerfRecordSample => s.time) ([.sample (sampleAt 7), .sample (sampleAt 3)].filterMap Op.sample?) :=
  have hprefixes : ∀ pre ∈ ([.sample (sampleAt 7), .sample (sampleAt 3), .finalize] : List Op).inits,
      ((create () 0 64 32).run discard pre).timeOrderViolations = 0 := by decide
  analysed_eq_sortBy discard () 0 64 32 _ (by decide) (by decide)
    (fun pre hpre => hprefixes pre ((List.mem_inits pre _).2 hpre))

/-! ## The count of violations wraps -/

section Repeat

variable {f : UInt32 → List (Entry Unit) → PerfUnwind Unit} {block : List Op} {samples : List PerfRecordSample}

/-- `block`, `n` times. -/
def repeated (block : List Op) : Nat → List Op
  | 0 => []
  | n + 1 => block ++ repeated block n

theorem mem_repeated {op : Op} : ∀ {n : Nat}, op ∈ repeated block n → op ∈ block
  | _ + 1, h => (List.mem_append.1 h).elim id mem_repeated

/-- Operations that add one to the count of violations, and analyse the same samples each time. -/
theorem run_repeated (hblock : ∀ n trace, ∃ trace', (f n trace).run discard block = f (n + 1) trace' ∧
      analysed trace' = analysed trace ++ samples) :
    ∀ (n : Nat) (k : UInt32) (trace : List (Entry Unit)),
      ∃ trace', (f k trace).run discard (repeated block n) = f (k + .ofNat n) trace' ∧
        analysed trace' = analysed trace ++ (List.replicate n samples).flatten
  | 0, k, trace => ⟨trace, by simp [run, repeated], by simp⟩
  | n + 1, k, trace => by
    obtain ⟨trace₁, h₁, hadded₁⟩ := hblock k trace
    obtain ⟨trace₂, h₂, hadded₂⟩ := run_repeated hblock n (k + 1) trace₁
    refine ⟨trace₂, ?_, ?_⟩
    · rw [repeated, run_append, h₁, h₂, UInt32.add_assoc, Nat.add_comm n, UInt32.ofNat_add]
      rfl
    · rw [hadded₂, hadded₁, List.replicate_succ, List.flatten_cons, List.append_assoc]

theorem passed_repeated (hblock : ∀ n trace, ∃ trace', (f n trace).run discard block = f (n + 1) trace' ∧
      analysed trace' = analysed trace ++ samples)
    (hsizes : ∀ n trace, ∀ event ∈ (f n trace).passed discard block, 8 ≤ event.size) :
    ∀ (n : Nat) (k : UInt32) (trace : List (Entry Unit)),
      ∀ event ∈ (f k trace).passed discard (repeated block n), 8 ≤ event.size
  | 0, _, _, _, h => absurd h List.not_mem_nil
  | _ + 1, k, trace, event, h => by
    obtain ⟨trace₁, h₁, -⟩ := hblock k trace
    rw [repeated, passed_append, h₁] at h
    rcases List.mem_append.1 h with h | h
    · exact hsizes k trace event h
    · exact passed_repeated hblock hsizes _ _ _ event h

theorem fits_repeated (hblock : ∀ n trace, ∃ trace', (f n trace).run discard block = f (n + 1) trace' ∧
      analysed trace' = analysed trace ++ samples)
    (hfits : ∀ n trace, ∀ pre, pre <+: block → ((f n trace).run discard pre).bufferedBytes < 2 ^ 32) :
    ∀ (n : Nat) (k : UInt32) (trace : List (Entry Unit)) (pre : List Op), pre <+: repeated block n →
      ((f k trace).run discard pre).bufferedBytes < 2 ^ 32
  | 0, k, trace, pre, h => by
    rw [List.prefix_nil.1 h]
    exact hfits k trace [] List.nil_prefix
  | n + 1, k, trace, pre, h => by
    rcases List.prefix_or_prefix_of_prefix h (List.prefix_append block _) with hpre | ⟨pre', rfl⟩
    · exact hfits k trace pre hpre
    · obtain ⟨trace₁, h₁, -⟩ := hblock k trace
      rw [run_append, h₁]
      exact fits_repeated hblock hfits n _ _ pre' ((List.prefix_append_right_inj block).1 h)

end Repeat

/-- An unwinder without a buffer after a sample at 10. -/
def violatedAt (n : UInt32) (trace : List (Entry Unit)) : PerfUnwind Unit where
  lastEventBufferSize := 0
  maxEventBufferSize := 0
  targetEventBufferSize := 0
  timeOrderViolations := n
  lastFlushMaxTime := 10
  back := ()
  trace := trace

def lateRound : List Op := [.sample (sampleAt 5), .finishedRound]

/-- What a late round adds to the trace. -/
def lateEntries : List (Entry Unit) :=
  [.arrived (.sample (sampleAt 5)), .call 10 () (.analyze (sampleAt 5)), .trailing [] 0 4]

theorem finishedRound_late (n : UInt32) (trace : List (Entry Unit)) :
    ({ violatedAt n trace with sampleBuffer := [sampleAt 5], eventBufferSize := 8 } : PerfUnwind Unit).finishedRound
        discard =
      violatedAt (n + 1) (trace ++ [.call 10 () (.analyze (sampleAt 5))] ++ [.trailing [] 0 4]) := by
  simp [finishedRound, flushEventBuffer, startFlush, sortBuffers, violatedAt, flushLoops, countViolations, sortBy,
    violatingMmap, sampleLoop, sampleAt, PerfRecord.time, processSample, processTasks, forwardMmapBuffer,
    callUnlessStats, call, PerfRecord.size, trailingLoop, Flush.leave, eraseUntil, countFlush, growBuffer,
    setTargetEventBufferSize]

theorem run_lateRound (n : UInt32) (trace : List (Entry Unit)) :
    ∃ trace', (violatedAt n trace).run discard lateRound = violatedAt (n + 1) trace' ∧
      analysed trace' = analysed trace ++ [sampleAt 5] := by
  have hsample : (violatedAt n trace).sample discard (sampleAt 5) =
      { violatedAt n (trace ++ [.arrived (.sample (sampleAt 5))]) with
        sampleBuffer := [sampleAt 5], eventBufferSize := 8 } := by
    simp [PerfUnwind.sample, bufferEvent, enqueue, append, violatedAt, Event.size, sampleAt, PerfRecord.size]
  have hround := finishedRound_late n (trace ++ [.arrived (.sample (sampleAt 5))])
  rw [← hsample, List.append_assoc, List.append_assoc] at hround
  exact ⟨trace ++ lateEntries, hround, analysed_append ..⟩

theorem passed_lateRound (n : UInt32) (trace : List (Entry Unit)) :
    ∀ event ∈ (violatedAt n trace).passed discard lateRound, 8 ≤ event.size := by
  intro event h
  cases List.mem_singleton.1 h
  decide

theorem fits_lateRound (n : UInt32) (trace : List (Entry Unit)) : ∀ pre, pre <+: lateRound →
    ((violatedAt n trace).run discard pre).bufferedBytes < 2 ^ 32
  | [], _ => Nat.two_pow_pos 32
  | [op], h => by
    cases (List.cons_prefix_cons.1 h).1
    have hbytes : ((violatedAt n trace).run discard [.sample (sampleAt 5)]).bufferedBytes = 8 := by
      with_unfolding_all rfl
    omega
  | op :: op' :: pre, h => by
    obtain ⟨h₁, h⟩ := List.cons_prefix_cons.1 h
    obtain ⟨h₂, h⟩ := List.cons_prefix_cons.1 h
    obtain ⟨trace', hrun, -⟩ := run_lateRound n trace
    rw [h₁, h₂, List.prefix_nil.1 h, show [_, _] = lateRound from rfl, hrun]
    exact Nat.two_pow_pos 32

def firstTrace : List (Entry Unit) :=
  [.arrived (.sample (sampleAt 10)), .call 10 () (.analyze (sampleAt 10)), .trailing [] 0 4]

theorem run_firstRound : (create () 0 0 0).run discard [.sample (sampleAt 10), .finishedRound] =
    violatedAt 0 firstTrace := by
  simp [run, apply, PerfUnwind.sample, bufferEvent, enqueue, append, create, Event.size, sampleAt, PerfRecord.size,
    finishedRound, flushEventBuffer, startFlush, sortBuffers, flushLoops, countViolations, sortBy, violatingMmap,
    sampleLoop, PerfRecord.time, processSample, processTasks, forwardMmapBuffer, callUnlessStats, call, trailingLoop,
    Flush.leave, eraseUntil, countFlush, violatedAt, firstTrace]

theorem finalize_violatedAt (n : UInt32) (trace : List (Entry Unit)) :
    (violatedAt n trace).finalize discard = violatedAt n (trace ++ [.trailing [] 0 0] ++ [.trailing [] 0 0]) := by
  simp [finalize, finishedRound, flushEventBuffer, startFlush, sortBuffers, violatedAt, flushLoops, countViolations,
    sortBy, violatingMmap, sampleLoop, trailingLoop, Flush.leave, eraseUntil, countFlush]

/-- A sample, and after it one by one `n` samples too late for its flush. -/
def lateRun (n : Nat) : List Op := [.sample (sampleAt 10), .finishedRound] ++ repeated lateRound n

theorem run_lateRun (n : Nat) : ∃ trace, (create () 0 0 0).run discard (lateRun n) = violatedAt (.ofNat n) trace ∧
    analysed trace = sampleAt 10 :: List.replicate n (sampleAt 5) := by
  obtain ⟨trace, hrun, htrace⟩ := run_repeated run_lateRound n 0 firstTrace
  rw [List.flatten_replicate_singleton] at htrace
  refine ⟨trace, ?_, htrace⟩
  rw [lateRun, run_append, run_firstRound, hrun, UInt32.zero_add]

theorem passed_lateRun (n : Nat) : ∀ event ∈ (create () 0 0 0).passed discard (lateRun n), 8 ≤ event.size := by
  intro event h
  rw [lateRun, passed_append, run_firstRound] at h
  rcases List.mem_append.1 h with h | h
  · cases List.mem_singleton.1 h
    decide
  · exact passed_repeated run_lateRound passed_lateRound n _ _ event h

theorem fits_lateRun (n : Nat) : ∀ pre : List Op, pre <+: lateRun n →
    ((create () 0 0 0).run discard pre).bufferedBytes < 2 ^ 32
  | [], _ => by decide
  | [op], h => by
    cases (List.cons_prefix_cons.1 h).1
    decide
  | op :: op' :: pre, h => by
    obtain ⟨h₁, h⟩ := List.cons_prefix_cons.1 h
    obtain ⟨h₂, h⟩ := List.cons_prefix_cons.1 h
    have hfits := fits_repeated run_lateRound fits_lateRound n 0 firstTrace pre h
    rw [← run_firstRound, ← run_append] at hfits
    rw [h₁, h₂]
    exact hfits

/-- **The count wraps**: it is zero again after 2^32 flushes that violate the time order. -/
theorem analysed_not_sorted : ¬∀ ops : List Op,
    (∀ event ∈ (create () 0 0 0).passed discard ops, 8 ≤ event.size) →
    (∀ pre, pre <+: ops → ((create () 0 0 0).run discard pre).bufferedBytes < 2 ^ 32) →
    (((create () 0 0 0).run discard ops).finalize discard).timeOrderViolations = 0 →
    analysed (((create () 0 0 0).run discard ops).finalize discard).trace =
      sortBy (fun s : PerfRecordSample => s.time) (ops.filterMap Op.sample?) := by
  intro h
  obtain ⟨trace, hrun, htrace⟩ := run_lateRun (2 ^ 32)
  have hsorted := h (lateRun (2 ^ 32)) (passed_lateRun _) (fits_lateRun _)
    (by rw [hrun, finalize_violatedAt]; exact (by decide : UInt32.ofNat (2 ^ 32) = 0))
  -- the first sample is analysed first, and comes after all others
  have hpairs := StableSort.sortBy_sorted (fun s : PerfRecordSample => s.time)
    ((lateRun (2 ^ 32)).filterMap Op.sample?)
  rw [← hsorted, hrun, finalize_violatedAt] at hpairs
  rw [violatedAt, analysed_append, analysed_append, htrace] at hpairs
  have hlate : sampleAt 5 ∈ List.replicate (2 ^ 32) (sampleAt 5) := List.mem_replicate.2 ⟨by decide, rfl⟩
  have hle := List.rel_of_pairwise_cons hpairs (List.mem_append_left _ (List.mem_append_left _ hlate))
  exact absurd hle (by decide)

end PerfUnwind
end PerfParser
