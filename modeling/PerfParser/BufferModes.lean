import PerfParser.BufferSizes
/-!
# BufferModes — dynamic and automatic buffering, over whole runs (`perfunwind.cpp`)

A stream with trace points is to be buffered dynamically, and so is a stream after a time order violation: the target
size is then not zero.  `run_dynamic_iff` and `run_grown` say how far that is so.
-/
namespace PerfParser

open History (Always)
open StableSort (sortBy)

/-! ## Trace points -/

namespace Buffering

/-- Trace points are buffered dynamically. -/
def Dynamic (b : Buffering) : Prop := b.tracePoints = true → b.targetSize ≠ 0

theorem switch_of_tracePoints {b : Buffering} (h : b.tracePoints = true) : b.switch = b := by
  simp [switch, h]

theorem switch_dynamic_iff (b : Buffering) : b.switch.Dynamic ↔ b.Dynamic := by
  cases h : b.tracePoints with
  | true => rw [switch_of_tracePoints h]
  | false =>
    have hs : b.switch.tracePoints = false := by
      unfold switch
      split <;> exact h
    simp [Dynamic, h, hs]

theorem announce_dynamic_iff {b : Buffering} (h : b.Dynamic) {tracePoint stored : Bool}
    (hstored : stored = true → tracePoint = true) :
    (b.announce tracePoint stored).Dynamic ↔ (stored = true → b.targetSize = 0 → b.lastSize ≠ 0) := by
  have htracePoints : (b.announce tracePoint stored).tracePoints = (b.tracePoints || stored) := by
    unfold announce announceTracePoint store
    cases tracePoint with
    | false => rfl
    | true => by_cases ht : b.targetSize = 0 <;> simp [ht, revert]
  have htarget : (b.announce tracePoint stored).targetSize =
      if tracePoint ∧ b.targetSize = 0 then b.lastSize else b.targetSize := by
    unfold announce announceTracePoint store
    cases tracePoint with
    | false => rfl
    | true => by_cases ht : b.targetSize = 0 <;> simp [ht, revert]
  unfold Dynamic at h ⊢
  rw [htracePoints, htarget]
  cases stored with
  | false =>
    rw [Bool.or_false]
    refine iff_of_true (fun htp => ?_) (fun hs => absurd hs Bool.false_ne_true)
    rw [if_neg (fun ht => h htp ht.2)]
    exact h htp
  | true =>
    rw [Bool.or_true, hstored rfl]
    by_cases ht : b.targetSize = 0
    · simp [ht]
    · simp [ht]

theorem grow_targetSize_ne_zero {b : Buffering} {size : UInt32} (hmax : b.maxSize ≠ 0) (hsize : size ≠ 0) :
    (b.grow size).targetSize ≠ 0 := by
  rw [grow_targetSize, ne_eq, grownSize_eq_zero]
  rintro (h | ⟨h, -⟩)
  · exact hmax h
  · exact hsize h

theorem Fits.maxSize_ne_zero {b : Buffering} (h : b.Fits) (ht : b.targetSize ≠ 0) : b.maxSize ≠ 0 := by
  intro hmax
  rw [Fits, hmax] at h
  exact ht (UInt32.le_antisymm h UInt32.zero_le)

end Buffering

namespace PerfUnwind

variable {σ : Type} {B : Backend σ}

theorem any_of_storesTracePoint : ∀ (known : UInt64 → Bool) (attributes : List (PerfEventAttributes × List UInt64)),
    storesTracePoint known attributes = true → attributes.any Op.isTracePoint = true
  | _, [], h => h
  | known, a :: attributes, h => by
    rw [storesTracePoint, Bool.or_eq_true, Bool.and_eq_true] at h
    rw [List.any_cons, Bool.or_eq_true]
    exact h.imp And.left (any_of_storesTracePoint _ attributes)

/-- What is buffered, where the size says that nothing is, makes a flush count a violation by its first mmap only. -/
theorem violates_of_eventBufferSize {u : PerfUnwind σ} (h : u.eventBufferSize = 0) :
    u.violates B 0 = true ↔ ∃ m ∈ u.mmapBuffer, m.time < u.lastFlushMaxTime := by
  have hsize : (u.startFlush B).unwind.eventBufferSize = 0 := (startFlush_sorted u).size.trans h
  have hloop : ∀ samples, sampleLoop B 0 (u.startFlush B) samples = (u.startFlush B, samples) := by
    intro samples
    cases samples with
    | nil => rfl
    | cons s samples =>
      rw [sampleLoop, if_neg]
      rw [hsize]
      exact UInt32.lt_irrefl 0
  rw [← startFlush_violates (B := B) u]
  unfold violates flushLoops
  rw [hloop]

/-- Dynamic buffering has a size: where trace points go back to a size, and where the last flush makes the buffer
grow. -/
structure KeepsDynamic (u : PerfUnwind σ) (op : Op) : Prop where
  reverts : storesTracePoint u.known op.announced = true → u.targetEventBufferSize = 0 → u.lastEventBufferSize ≠ 0
  grows : op = .finalize → u.hasTracePointAttributes = true → u.eventBufferSize = 0 → u.lastEventBufferSize = 0 →
    ∀ m ∈ u.mmapBuffer, u.lastFlushMaxTime ≤ m.time

theorem keepsDynamic_of_nil {u : PerfUnwind σ} {op : Op} (h : op.announced = []) (hop : op ≠ .finalize) :
    u.KeepsDynamic op where
  reverts hs := by
    rw [h] at hs
    cases hs
  grows he := (hop he).elim

theorem announced_dynamic_iff {u : PerfUnwind σ} (h : u.buffering.Dynamic) {op : Op} (hop : op ≠ .finalize) :
    (u.announced op).Dynamic ↔ u.KeepsDynamic op := by
  have hannounce := Buffering.announce_dynamic_iff h (any_of_storesTracePoint u.known op.announced)
  refine Iff.trans hannounce ?_
  exact ⟨fun hr => ⟨hr, fun he => (hop he).elim⟩, fun hk => hk.reverts⟩

theorem bufferEvent_dynamic {u : PerfUnwind σ} (hfits : u.buffering.Fits) (h : u.buffering.Dynamic) (event : Event) :
    (u.bufferEvent B event).buffering.Dynamic := by
  rw [bufferEvent_buffering]
  split
  · rename_i hfull
    intro htp
    have hsize : u.eventBufferSize + event.size ≠ 0 := fun h0 => UInt32.not_lt.2 UInt32.zero_le (h0 ▸ hfull.1.2)
    exact Buffering.grow_targetSize_ne_zero (hfits.maxSize_ne_zero (h htp)) hsize
  · exact h

theorem finishedRound_of_tracePoints {u : PerfUnwind σ} (htp : u.hasTracePointAttributes = true)
    (ht : u.targetEventBufferSize ≠ 0) : ∃ stats, u.finishedRound B = { u with stats := stats } := by
  unfold finishedRound
  dsimp only
  split
  · exact ⟨u.stats.finishedRound, if_neg (fun h => h.2 htp)⟩
  · exact ⟨u.stats, if_neg (fun h => h.2 htp)⟩

theorem finishedRound_dynamic {u : PerfUnwind σ} (h : u.buffering.Dynamic) : (u.finishedRound B).buffering.Dynamic := by
  intro htp
  have htp' : u.hasTracePointAttributes = true := (finishedRound_adapts (B := B) u).tracePoints.symm.trans htp
  obtain ⟨stats, hround⟩ := finishedRound_of_tracePoints (B := B) htp' (h htp')
  rw [hround]
  exact h htp'

theorem finalize_dynamic_iff {u : PerfUnwind σ} (hfits : u.buffering.Fits) (h : u.buffering.Dynamic) :
    (u.finalize B).buffering.Dynamic ↔ u.KeepsDynamic .finalize := by
  cases htp : u.hasTracePointAttributes with
  | false =>
    have hadapts := apply_adapts (B := B) u (show Op.finalize.configures = false from rfl)
    rw [announced_nil rfl] at hadapts
    have htracePoints : (u.finalize B).buffering.tracePoints = false := hadapts.tracePoints.trans htp
    refine iff_of_true (fun hd => ?_) ⟨fun hs => ?_, fun _ hs => ?_⟩
    · exact absurd (htracePoints.symm.trans hd) (by decide)
    · cases hs
    · exact absurd (htp.symm.trans hs) (by decide)
  | true =>
    have hmax : u.buffering.maxSize ≠ 0 := hfits.maxSize_ne_zero (h htp)
    have hnil : storesTracePoint u.known Op.finalize.announced = false := rfl
    have hkeeps : u.KeepsDynamic .finalize ↔ (u.eventBufferSize = 0 → u.lastEventBufferSize = 0 →
        ∀ m ∈ u.mmapBuffer, u.lastFlushMaxTime ≤ m.time) :=
      ⟨fun hk => hk.grows rfl htp, fun hg => ⟨fun hs => absurd (hnil.symm.trans hs) (by decide), fun _ _ => hg⟩⟩
    obtain ⟨stats, hround⟩ := finishedRound_of_tracePoints (B := B) htp (h htp)
    have hb : (u.finishedRound B).buffering = u.buffering := by rw [hround]; rfl
    have hs : (u.finishedRound B).eventBufferSize = u.eventBufferSize := by rw [hround]
    have hlate := violates_of_eventBufferSize (B := B) (u := u.finishedRound B)
    rw [hs, show (u.finishedRound B).mmapBuffer = u.mmapBuffer by rw [hround],
      show (u.finishedRound B).lastFlushMaxTime = u.lastFlushMaxTime by rw [hround]] at hlate
    unfold finalize
    rw [flushEventBuffer_buffering, hb, hs, hkeeps]
    cases hv : (u.finishedRound B).violates B 0 with
    | false =>
      refine iff_of_true h (fun hsize _ m hm => UInt64.not_lt.1 fun hlt => ?_)
      exact absurd (hv.symm.trans ((hlate hsize).2 ⟨m, hm, hlt⟩)) (by decide)
    | true =>
      rw [if_pos rfl]
      have hgrow : (u.buffering.grow u.eventBufferSize).Dynamic ↔
          ¬(u.eventBufferSize = 0 ∧ u.lastEventBufferSize = 0) := by
        rw [Buffering.Dynamic, Buffering.grow_targetSize, ne_eq, Buffering.grownSize_eq_zero]
        exact ⟨fun hd hzero => hd htp (.inr hzero), fun hd _ hzero => hzero.elim hmax hd⟩
      refine hgrow.trans ⟨fun hd hsize hlast => (hd ⟨hsize, hlast⟩).elim, fun hk ⟨hsize, hlast⟩ => ?_⟩
      obtain ⟨m, hm, hlt⟩ := (hlate hsize).1 hv
      exact UInt64.not_lt.2 (hk hsize hlast m hm) hlt

/-- **An operation keeps the buffering dynamic exactly where that has a size.** -/
theorem apply_dynamic_iff {u : PerfUnwind σ} (hfits : u.buffering.Fits) (h : u.buffering.Dynamic) {op : Op}
    (hop : op.configures = false) : (u.apply B op).buffering.Dynamic ↔ u.KeepsDynamic op := by
  cases he : u.event? B op with
  | some event =>
    obtain ⟨back, ha⟩ := apply_event he
    rw [ha]
    have hfinal : op ≠ .finalize := by
      rintro rfl
      cases he
    exact iff_of_true (bufferEvent_dynamic (u := { u with back := back }) hfits h event)
      (keepsDynamic_of_nil (event_announced he) hfinal)
  | none =>
    cases op with
    | finishedRound => exact iff_of_true (finishedRound_dynamic h) (keepsDynamic_of_nil rfl (by simp))
    | finalize => exact finalize_dynamic_iff hfits h
    | tracing tracingData =>
      have hb : (u.apply B (.tracing tracingData)).buffering = _ := (tracing_buffering u tracingData).1
      rw [hb]
      exact iff_of_true h (keepsDynamic_of_nil rfl (by simp))
    | attr attr =>
      rw [show (u.apply B (.attr attr)).buffering = _ from attr_buffering u attr]
      exact announced_dynamic_iff h (by simp)
    | features features =>
      rw [show (u.apply B (.features features)).buffering = _ from features_buffering u features,
        ← announced_dynamic_iff h (by simp)]
      split
      · exact Buffering.switch_dynamic_iff _
      · exact Iff.rfl
    | setMaxEventBufferSize size => cases hop
    | setTargetEventBufferSize size => cases hop
    | _ => cases he

/-- **Trace points are buffered dynamically exactly as long as every switch back to dynamic buffering has a size.** -/
theorem run_dynamic_iff (B : Backend σ) (back : σ) (printStats : Bool) (targetSize maxSize : UInt32) (ops : List Op)
    (hops : ∀ op ∈ ops, op.configures = false) :
    (∀ pre, pre <+: ops → ((configured back printStats targetSize maxSize).run B pre).hasTracePointAttributes = true →
      ((configured back printStats targetSize maxSize).run B pre).targetEventBufferSize ≠ 0) ↔
    Always (fun pre op => ((configured back printStats targetSize maxSize).run B pre).KeepsDynamic op) ops := by
  have hstart : (configured back printStats targetSize maxSize).buffering.Dynamic := by
    intro htp
    rw [configured_buffering] at htp
    split at htp <;> cases htp
  exact History.forall_prefix_iff (I := fun u : PerfUnwind σ => u.buffering.Fits)
    (R := fun u : PerfUnwind σ => u.buffering.Dynamic) (A := fun op => op.configures = false)
    (C := fun u op => u.KeepsDynamic op) (f := fun u op => u.apply B op)
    (fun u op hop hfits => apply_fits hfits hop) (fun u op hop hfits h => apply_dynamic_iff hfits h hop)
    (configured_fits back printStats targetSize maxSize) hstart ops hops

/-- The features of a perf that marks its rounds. -/
def versionFeatures : PerfFeatures where
  version := [52, 46, 48]

theorem run_dynamic_tracePoint :
    (∀ pre, pre <+: [.features versionFeatures, .attr tracePointAttr] →
      ((configured () false 4096 8192).run discard pre).hasTracePointAttributes = true →
      ((configured () false 4096 8192).run discard pre).targetEventBufferSize ≠ 0) ↔
    Always (fun pre op => ((configured () false 4096 8192).run discard pre).KeepsDynamic op)
      [.features versionFeatures, .attr tracePointAttr] :=
  run_dynamic_iff discard () false 4096 8192 [.features versionFeatures, .attr tracePointAttr] (by decide)

/-- Asked for no buffer, the switch to automatic buffering forgets the size to go back to. -/
theorem run_not_dynamic : ¬∀ (targetSize maxSize : UInt32) (ops : List Op), (∀ op ∈ ops, op.configures = false) →
    ∀ pre, pre <+: ops → ((configured () false targetSize maxSize).run discard pre).hasTracePointAttributes = true →
      ((configured () false targetSize maxSize).run discard pre).targetEventBufferSize ≠ 0 := by
  intro h
  have hdynamic := h 0 1073741824 [.features versionFeatures, .attr tracePointAttr] (by decide)
    [.features versionFeatures, .attr tracePointAttr] (List.prefix_refl _)
  exact hdynamic (by decide) (by decide)

/-! ## Time order violations -/

/-- Everything in the buffers that can violate the time order has the size of a record. -/
structure Sized (u : PerfUnwind σ) : Prop where
  samples : ∀ s ∈ u.sampleBuffer, 8 ≤ s.size.toUInt32
  mmaps : ∀ m ∈ u.mmapBuffer, 8 ≤ m.size.toUInt32

theorem Sized.of_subset {u v : PerfUnwind σ} (h : u.Sized) (hs : v.sampleBuffer ⊆ u.sampleBuffer)
    (hm : v.mmapBuffer ⊆ u.mmapBuffer) : v.Sized :=
  ⟨fun s hmem => h.samples s (hs hmem), fun m hmem => h.mmaps m (hm hmem)⟩

theorem flushEventBuffer_sized {u : PerfUnwind σ} (h : u.Sized) (desired : UInt32) :
    (u.flushEventBuffer B desired).Sized := by
  have hsorted := startFlush_sorted (B := B) u
  obtain ⟨hs, hm, -⟩ := sampleLoop_suffix (B := B) desired (u.startFlush B) (u.startFlush B).unwind.sampleBuffer
  have hcore := flushEventBuffer_core (B := B) u desired
  have hsamples : (u.flushEventBuffer B desired).sampleBuffer = _ := congrArg Core.samples hcore
  have hmmaps : (u.flushEventBuffer B desired).mmapBuffer = _ := congrArg Core.mmaps hcore
  refine h.of_subset (fun s hmem => ?_) (fun m hmem => ?_)
  · rw [← StableSort.mem_sortBy (fun s : PerfRecordSample => s.time), ← hsorted.samples]
    rw [hsamples] at hmem
    exact hs.subset hmem
  · rw [← StableSort.mem_sortBy (fun m : PerfRecordMmap => m.time), ← hsorted.mmaps]
    rw [hmmaps] at hmem
    exact hm.subset hmem

theorem enqueue_sized {u : PerfUnwind σ} (h : u.Sized) {event : Event} (hsize : 8 ≤ event.size) :
    (u.enqueue event).Sized := by
  have hbuffers : (u.enqueue event).sampleBuffer = u.sampleBuffer ++ event.sample?.toList ∧
      (u.enqueue event).mmapBuffer = u.mmapBuffer ++ event.mmap?.toList := by
    unfold enqueue append
    cases event <;> dsimp only [Event.sample?, Event.mmap?, Option.toList] <;> split <;> simp
  constructor
  · intro s hmem
    rw [hbuffers.1] at hmem
    rcases List.mem_append.1 hmem with hmem | hmem
    · exact h.samples s hmem
    · cases event <;> simp only [Event.sample?, Option.toList, List.mem_singleton, List.not_mem_nil] at hmem
      exact hmem ▸ hsize
  · intro m hmem
    rw [hbuffers.2] at hmem
    rcases List.mem_append.1 hmem with hmem | hmem
    · exact h.mmaps m hmem
    · cases event <;> simp only [Event.mmap?, Option.toList, List.mem_singleton, List.not_mem_nil] at hmem
      exact hmem ▸ hsize

theorem enqueueAll_sized : ∀ (events : List Event) {u : PerfUnwind σ}, u.Sized → (∀ event ∈ events, 8 ≤ event.size) →
    (u.enqueueAll events).Sized
  | [], _, h, _ => h
  | event :: events, _, h, hsizes =>
    enqueueAll_sized events (enqueue_sized h (hsizes event List.mem_cons_self))
      (fun event' he => hsizes event' (List.mem_cons_of_mem event he))

theorem apply_sized {u : PerfUnwind σ} (h : u.Sized) (op : Op)
    (hsizes : ∀ event ∈ (u.event? B op).toList, 8 ≤ event.size) : (u.apply B op).Sized := by
  obtain ⟨v, sizes, hq, -, he⟩ := apply_shape (B := B) u op
  obtain ⟨hs, hm, -⟩ := Quiets.buffers hq
  rw [he]
  exact flushAll_induction (P := Sized) (fun desired h => flushEventBuffer_sized h desired) sizes
    (enqueueAll_sized _ (h.of_subset (fun _ hmem => hs ▸ hmem) (fun _ hmem => hm ▸ hmem)) hsizes)

theorem violates_of_nil {u : PerfUnwind σ} (hs : u.sampleBuffer = []) (hm : u.mmapBuffer = []) (desired : UInt32) :
    u.violates B desired = false := by
  have hsorted := startFlush_sorted (B := B) u
  have hlate := startFlush_violates (B := B) u
  rw [hm] at hlate
  unfold violates flushLoops
  rw [hsorted.samples, hs, show sortBy (fun s : PerfRecordSample => s.time) [] = [] from rfl]
  exact Bool.eq_false_of_not_eq_true fun h => by simpa using hlate.1 h

theorem eventBufferSize_of_violates {u : PerfUnwind σ} (hb : u.Balanced) (hfit : u.bufferedBytes < 2 ^ 32) (h : u.Sized)
    {desired : UInt32} (hv : u.violates B desired = true) : u.eventBufferSize ≠ 0 := by
  have hsize := hb.toNat hfit
  intro h0
  rw [h0, UInt32.toNat_zero, PerfParser.bufferedBytes] at hsize
  have hs : u.sampleBuffer = [] := by
    cases hsamples : u.sampleBuffer with
    | nil => rfl
    | cons s samples =>
      have := UInt32.le_iff_toNat_le.1 (h.samples s (hsamples ▸ List.mem_cons_self))
      rw [show (8 : UInt32).toNat = 8 from rfl] at this
      rw [hsamples, bytes_cons] at hsize
      omega
  have hm : u.mmapBuffer = [] := by
    cases hmmaps : u.mmapBuffer with
    | nil => rfl
    | cons m mmaps =>
      have := UInt32.le_iff_toNat_le.1 (h.mmaps m (hmmaps ▸ List.mem_cons_self))
      rw [show (8 : UInt32).toNat = 8 from rfl] at this
      rw [hmmaps, bytes_cons] at hsize
      omega
  rw [violates_of_nil hs hm] at hv
  cases hv

end PerfUnwind

namespace Buffering

/-- A violation was counted: the buffer has a size. -/
structure Grown (b : Buffering) : Prop where
  max_ne : b.maxSize ≠ 0
  target_ne : b.violations ≠ 0 → b.targetSize ≠ 0

theorem setTarget_maxSize_ne {b : Buffering} (h : b.maxSize ≠ 0) (size : UInt32) : (b.setTarget size).maxSize ≠ 0 := by
  rw [setTarget_maxSize]
  by_cases hle : b.maxSize ≤ size
  · rw [show max b.maxSize size = size from if_pos hle]
    exact fun h0 => h (UInt32.le_antisymm (h0 ▸ hle) UInt32.zero_le)
  · rw [show max b.maxSize size = b.maxSize from if_neg hle]
    exact h

theorem Grown.grow {b : Buffering} (h : b.Grown) {size : UInt32} (hsize : size ≠ 0) : (b.grow size).Grown where
  max_ne := by rw [grow_maxSize]; exact h.max_ne
  target_ne _ := grow_targetSize_ne_zero h.max_ne hsize

theorem Grown.switch {b : Buffering} (h : b.Grown) : b.switch.Grown := by
  unfold Buffering.switch
  split
  · rename_i hs
    exact ⟨setTarget_maxSize_ne h.max_ne 0, fun hv => (hv hs.1).elim⟩
  · exact h

theorem Grown.announce {b : Buffering} (h : b.Grown) (tracePoint stored : Bool) :
    (b.announce tracePoint stored).Grown := by
  have hstore : ∀ {b : Buffering}, b.Grown → (b.store stored).Grown := fun h => ⟨h.max_ne, h.target_ne⟩
  unfold Buffering.announce announceTracePoint
  split
  · split
    · rename_i ht
      exact hstore ⟨setTarget_maxSize_ne h.max_ne _, fun hv => (h.target_ne hv ht).elim⟩
    · exact hstore h
  · exact hstore h

end Buffering

namespace PerfUnwind

/-- What the operations of a run keep: a buffer that is accounted for, holds records, and has a size after a
violation. -/
structure Steady (u : PerfUnwind σ) : Prop where
  balanced : u.Balanced
  sized : u.Sized
  grown : u.buffering.Grown

theorem finishedRound_grown {u : PerfUnwind σ} (h : u.Steady) (hfit : u.bufferedBytes < 2 ^ 32) :
    (u.finishedRound B).buffering.Grown := by
  obtain ⟨stats, hround⟩ := finishedRound_buffering (B := B) u
  rw [hround]
  split
  · split
    · rename_i hv
      exact h.grown.grow (eventBufferSize_of_violates (u := { u with stats := stats }) h.balanced hfit
        ⟨h.sized.samples, h.sized.mmaps⟩ hv)
    · exact h.grown
  · exact h.grown.switch

theorem finalize_grown {u : PerfUnwind σ} (h : u.Steady) (hfit : u.bufferedBytes < 2 ^ 32) :
    (u.finalize B).buffering.Grown := by
  have hgrown := finishedRound_grown (B := B) h hfit
  have hsized : (u.finishedRound B).Sized :=
    apply_sized (B := B) h.sized .finishedRound (fun event he => absurd he List.not_mem_nil)
  unfold finalize
  rw [flushEventBuffer_buffering]
  split
  · rename_i hv
    exact hgrown.grow (eventBufferSize_of_violates (finishedRound_balanced h.balanced)
      (Nat.lt_of_le_of_lt (finishedRound_bufferedBytes u) hfit) hsized hv)
  · exact hgrown

theorem apply_grown {u : PerfUnwind σ} (h : u.Steady) (hfit : u.bufferedBytes < 2 ^ 32) {op : Op}
    (hop : op.configures = false) : (u.apply B op).buffering.Grown := by
  cases he : u.event? B op with
  | some event =>
    obtain ⟨back, ha⟩ := apply_event he
    rw [ha, bufferEvent_buffering]
    split
    · rename_i hfull
      have hsize : u.eventBufferSize + event.size ≠ 0 := fun h0 => UInt32.not_lt.2 UInt32.zero_le (h0 ▸ hfull.1.2)
      exact h.grown.grow hsize
    · exact h.grown
  | none =>
    cases op with
    | finishedRound => exact finishedRound_grown h hfit
    | finalize => exact finalize_grown h hfit
    | tracing tracingData =>
      rw [show (u.apply B (.tracing tracingData)).buffering = _ from (tracing_buffering u tracingData).1]
      exact h.grown
    | attr attr =>
      rw [show (u.apply B (.attr attr)).buffering = _ from attr_buffering u attr]
      exact h.grown.announce _ _
    | features features =>
      rw [show (u.apply B (.features features)).buffering = _ from features_buffering u features]
      split
      · exact (h.grown.announce _ _).switch
      · exact h.grown.announce _ _
    | setMaxEventBufferSize size => cases hop
    | setTargetEventBufferSize size => cases hop
    | _ => cases he

theorem run_steady : ∀ (ops : List Op) {u : PerfUnwind σ}, u.Steady → (∀ op ∈ ops, op.configures = false) →
    (∀ event ∈ u.passed B ops, 8 ≤ event.size) → (∀ pre, pre <+: ops → (u.run B pre).bufferedBytes < 2 ^ 32) →
    (u.run B ops).Steady
  | [], _, h, _, _, _ => h
  | op :: ops, u, h, hops, hsizes, hfits => by
    have happly : (u.apply B op).Steady :=
      { balanced := run_balanced [op] h.balanced
        sized := apply_sized h.sized op (fun event he => hsizes event (List.mem_append_left _ he))
        grown := apply_grown h (hfits [] List.nil_prefix) (hops op List.mem_cons_self) }
    exact run_steady ops happly (fun op' hop' => hops op' (List.mem_cons_of_mem op hop'))
      (fun event he => hsizes event (List.mem_append_right _ he))
      (fun pre hpre => hfits (op :: pre) (List.cons_prefix_cons.2 ⟨rfl, hpre⟩))

theorem configured_timeOrderViolations (back : σ) (printStats : Bool) (targetSize maxSize : UInt32) :
    (configured back printStats targetSize maxSize).timeOrderViolations = 0 := by
  have hviolations := congrArg Buffering.violations (configured_buffering back printStats targetSize maxSize)
  split at hviolations
  · exact hviolations
  · exact hviolations

theorem configured_steady (back : σ) (printStats : Bool) (targetSize : UInt32) {maxSize : UInt32} (hmax : maxSize ≠ 0) :
    (configured back printStats targetSize maxSize).Steady := by
  have hcore : (configured back printStats targetSize maxSize).core =
      ({ back := back, stats := { enabled := printStats } } : PerfUnwind σ).core := by
    rw [configured, core_setMaxEventBufferSize, core_setTargetEventBufferSize]
  have hsize : (configured back printStats targetSize maxSize).eventBufferSize = 0 :=
    (setMaxEventBufferSize_keeps _ maxSize).2.2.trans (setTargetEventBufferSize_keeps _ targetSize).2.2
  have hsamples : (configured back printStats targetSize maxSize).sampleBuffer = [] := congrArg Core.samples hcore
  have hmmaps : (configured back printStats targetSize maxSize).mmapBuffer = [] := congrArg Core.mmaps hcore
  refine ⟨balanced_of_core hcore hsize rfl, ⟨fun s hs => ?_, fun m hm => ?_⟩, ?_⟩
  · rw [hsamples] at hs
    cases hs
  · rw [hmmaps] at hm
    cases hm
  · rw [configured_buffering]
    split
    · exact ⟨hmax, fun hv => (hv rfl).elim⟩
    · exact ⟨hmax, fun hv => (hv rfl).elim⟩

/-- What a flush of a full buffer that counts a violation does to the target. -/
theorem bufferEvent_grows {u : PerfUnwind σ} (hfits : u.buffering.Fits) {event : Event}
    (hv : (u.bufferEvent B event).timeOrderViolations ≠ u.timeOrderViolations) :
    u.targetEventBufferSize ≤ (u.bufferEvent B event).targetEventBufferSize ∧
      (u.bufferEvent B event).targetEventBufferSize.toNat = min u.maxEventBufferSize.toNat
        (min (2 * max (u.eventBufferSize + event.size).toNat u.lastEventBufferSize.toNat) (2 ^ 32 - 1)) := by
  have hb := bufferEvent_buffering (B := B) u event
  split at hb
  · rename_i hfull
    have htarget : (u.bufferEvent B event).targetEventBufferSize =
      u.buffering.grownSize (u.eventBufferSize + event.size) :=
      congrArg Buffering.targetSize hb
    have hfull : u.targetEventBufferSize.toNat < (u.eventBufferSize + event.size).toNat :=
      UInt32.lt_iff_toNat_lt.1 hfull.1.2
    have hfits : u.targetEventBufferSize.toNat ≤ u.maxEventBufferSize.toNat := UInt32.le_iff_toNat_le.1 hfits
    have hlt := (u.eventBufferSize + event.size).toNat_lt
    rw [UInt32.le_iff_toNat_le, htarget, Buffering.grownSize_toNat]
    refine ⟨?_, rfl⟩
    rw [show u.buffering.maxSize = u.maxEventBufferSize from rfl]
    omega
  · exact (hv (congrArg Buffering.violations hb)).elim

theorem run_fits {u : PerfUnwind σ} (h : u.buffering.Fits) (ops : List Op) (hops : ∀ op ∈ ops, op.configures = false) :
    (u.run B ops).buffering.Fits := by
  exact History.foldl_invariant (I := fun u : PerfUnwind σ => u.buffering.Fits) (f := fun u op => u.apply B op)
    (A := fun op => op.configures = false) (fun u op hop h => apply_fits h hop) ops u hops h

/-- The violating flushes of a run: what each operation adds to the count of them. -/
def violatingFlushes (B : Backend σ) : PerfUnwind σ → List Op → Nat
  | _, [] => 0
  | u, op :: ops =>
    ((u.apply B op).timeOrderViolations - u.timeOrderViolations).toNat + violatingFlushes B (u.apply B op) ops

theorem violatingFlushes_append : ∀ (ops ops' : List Op) (u : PerfUnwind σ),
    u.violatingFlushes B (ops ++ ops') = u.violatingFlushes B ops + (u.run B ops).violatingFlushes B ops'
  | [], _, _ => (Nat.zero_add _).symm
  | op :: ops, ops', u => by
    rw [List.cons_append, violatingFlushes, violatingFlushes_append ops ops', violatingFlushes, Nat.add_assoc]
    rfl

theorem violatingFlushes_mono {ops ops' : List Op} (h : ops <+: ops') (u : PerfUnwind σ) :
    u.violatingFlushes B ops ≤ u.violatingFlushes B ops' := by
  obtain ⟨post, rfl⟩ := h
  rw [violatingFlushes_append]
  exact Nat.le_add_right _ _

theorem run_timeOrderViolations : ∀ (ops : List Op) (u : PerfUnwind σ),
    (u.run B ops).timeOrderViolations = u.timeOrderViolations + .ofNat (u.violatingFlushes B ops)
  | [], u => (UInt32.add_zero _).symm
  | op :: ops, u => by
    have hstep := run_timeOrderViolations (B := B) ops (u.apply B op)
    rw [show u.run B (op :: ops) = (u.apply B op).run B ops from rfl, hstep, violatingFlushes, UInt32.ofNat_add,
      UInt32.ofNat_toNat, ← UInt32.add_assoc, UInt32.add_comm u.timeOrderViolations, UInt32.sub_add_cancel]

/-- **Automatic buffering does not come back after a time order violation**, as long as the count of violations is not
zero again, that is in every run of fewer than 2^32 violating flushes; and the violations of full buffers never make
the target smaller. -/
theorem run_grown (B : Backend σ) (back : σ) (printStats : Bool) (targetSize maxSize : UInt32) (ops : List Op)
    (hmax : maxSize ≠ 0) (hops : ∀ op ∈ ops, op.configures = false)
    (hsizes : ∀ event ∈ (configured back printStats targetSize maxSize).passed B ops, 8 ≤ event.size)
    (hfits : ∀ pre, pre <+: ops → ((configured back printStats targetSize maxSize).run B pre).bufferedBytes < 2 ^ 32) :
    (∀ pre, pre <+: ops → ((configured back printStats targetSize maxSize).run B pre).timeOrderViolations ≠ 0 →
      ((configured back printStats targetSize maxSize).run B pre).targetEventBufferSize ≠ 0) ∧
    ((configured back printStats targetSize maxSize).violatingFlushes B ops < 2 ^ 32 →
      ∀ pre pre', pre <+: pre' → pre' <+: ops →
        0 < (configured back printStats targetSize maxSize).violatingFlushes B pre →
        ((configured back printStats targetSize maxSize).run B pre').targetEventBufferSize ≠ 0) ∧
    ∀ pre op event, pre ++ [op] <+: ops →
      ((configured back printStats targetSize maxSize).run B pre).event? B op = some event →
      ((configured back printStats targetSize maxSize).run B (pre ++ [op])).timeOrderViolations ≠
        ((configured back printStats targetSize maxSize).run B pre).timeOrderViolations →
      ((configured back printStats targetSize maxSize).run B pre).targetEventBufferSize ≤
          ((configured back printStats targetSize maxSize).run B (pre ++ [op])).targetEventBufferSize ∧
        ((configured back printStats targetSize maxSize).run B (pre ++ [op])).targetEventBufferSize.toNat =
          min ((configured back printStats targetSize maxSize).run B pre).maxEventBufferSize.toNat
            (min (2 * max (((configured back printStats targetSize maxSize).run B pre).eventBufferSize + event.size).toNat
              ((configured back printStats targetSize maxSize).run B pre).lastEventBufferSize.toNat) (2 ^ 32 - 1)) := by
  have hstart := configured_steady back printStats targetSize hmax
  have hpassed : ∀ pre, pre <+: ops → ∀ event ∈ (configured back printStats targetSize maxSize).passed B pre,
      8 ≤ event.size := by
    rintro pre ⟨post, rfl⟩ event he
    exact hsizes event (by rw [passed_append]; exact List.mem_append_left _ he)
  have hgrown : ∀ pre, pre <+: ops → ((configured back printStats targetSize maxSize).run B pre).timeOrderViolations ≠ 0 →
      ((configured back printStats targetSize maxSize).run B pre).targetEventBufferSize ≠ 0 := fun pre hpre =>
    (run_steady pre hstart (fun op hop => hops op (hpre.subset hop)) (hpassed pre hpre)
      (fun pre' hpre' => hfits pre' (hpre'.trans hpre))).grown.target_ne
  refine ⟨hgrown, fun hwrap pre pre' hprefix hpre' hpos => hgrown pre' hpre' fun hzero => ?_, ?_⟩
  · -- the count is the number of violating flushes, which is positive and has not wrapped
    have hcount := run_timeOrderViolations (B := B) pre' (configured back printStats targetSize maxSize)
    have hless := violatingFlushes_mono (B := B) hpre' (configured back printStats targetSize maxSize)
    have hmore := violatingFlushes_mono (B := B) hprefix (configured back printStats targetSize maxSize)
    rw [hzero, configured_timeOrderViolations, UInt32.zero_add] at hcount
    have hnat := congrArg UInt32.toNat hcount
    rw [UInt32.toNat_ofNat_of_lt' (Nat.lt_of_le_of_lt hless hwrap), UInt32.toNat_zero] at hnat
    omega
  · intro pre op event hpre he hv
    have hfitsPre := run_fits (B := B) (configured_fits back printStats targetSize maxSize) pre
      (fun op' hop' => hops op' (hpre.subset (List.mem_append_left _ hop')))
    rw [run_snoc] at hv ⊢
    obtain ⟨back', ha⟩ := apply_event he
    rw [ha] at hv ⊢
    exact bufferEvent_grows (u := { (configured back printStats targetSize maxSize).run B pre with back := back' })
      hfitsPre hv

theorem run_grown_late :
    (∀ pre, pre <+: [.sample (sampleAt 10), .sample (sampleAt 10), .sample (sampleAt 5), .sample (sampleAt 5)] →
      ((configured () false 8 64).run discard pre).timeOrderViolations ≠ 0 →
      ((configured () false 8 64).run discard pre).targetEventBufferSize ≠ 0) ∧
    ((configured () false 8 64).violatingFlushes discard
        [.sample (sampleAt 10), .sample (sampleAt 10), .sample (sampleAt 5), .sample (sampleAt 5)] < 2 ^ 32 →
      ∀ pre pre', pre <+: pre' →
        pre' <+: [.sample (sampleAt 10), .sample (sampleAt 10), .sample (sampleAt 5), .sample (sampleAt 5)] →
        0 < (configured () false 8 64).violatingFlushes discard pre →
        ((configured () false 8 64).run discard pre').targetEventBufferSize ≠ 0) ∧
    ∀ pre op event,
      pre ++ [op] <+: [.sample (sampleAt 10), .sample (sampleAt 10), .sample (sampleAt 5), .sample (sampleAt 5)] →
      ((configured () false 8 64).run discard pre).event? discard op = some event →
      ((configured () false 8 64).run discard (pre ++ [op])).timeOrderViolations ≠
        ((configured () false 8 64).run discard pre).timeOrderViolations →
      ((configured () false 8 64).run discard pre).targetEventBufferSize ≤
          ((configured () false 8 64).run discard (pre ++ [op])).targetEventBufferSize ∧
        ((configured () false 8 64).run discard (pre ++ [op])).targetEventBufferSize.toNat =
          min ((configured () false 8 64).run discard pre).maxEventBufferSize.toNat
            (min (2 * max (((configured () false 8 64).run discard pre).eventBufferSize + event.size).toNat
              ((configured () false 8 64).run discard pre).lastEventBufferSize.toNat) (2 ^ 32 - 1)) :=
  have hfits : ∀ pre ∈ ([.sample (sampleAt 10), .sample (sampleAt 10), .sample (sampleAt 5),
      .sample (sampleAt 5)] : List Op).inits,
      ((configured () false 8 64).run discard pre).bufferedBytes < 2 ^ 32 := by decide
  run_grown discard () false 8 64 _ (by decide) (by decide) (by decide)
    (fun pre hpre => hfits pre ((List.mem_inits pre _).2 hpre))

/-! ### The count of violations wraps -/

/-- An unwinder with a buffer for one sample, after a sample at 10. -/
def grownAt (n : UInt32) (trace : List (Entry Unit)) : PerfUnwind Unit where
  lastEventBufferSize := 8
  maxEventBufferSize := 8
  targetEventBufferSize := 8
  timeOrderViolations := n
  lastFlushMaxTime := 10
  back := ()
  trace := trace

def samplePair (time : UInt64) : List Op := [.sample (sampleAt time), .sample (sampleAt time)]

theorem run_latePair (n : UInt32) (trace : List (Entry Unit)) :
    ∃ trace', (grownAt n trace).run discard (samplePair 5) = grownAt (n + 1) trace' ∧
      analysed trace' = analysed trace ++ [sampleAt 5, sampleAt 5] := by
  refine ⟨trace ++ [.arrived (.sample (sampleAt 5)), .arrived (.sample (sampleAt 5)),
    .call 10 () (.analyze (sampleAt 5)), .call 10 () (.analyze (sampleAt 5)), .trailing [] 0 4], ?_, analysed_append ..⟩
  simp [run, apply, samplePair, PerfUnwind.sample, bufferEvent, enqueue, append, Event.size,
    PerfRecord.size, flushEventBuffer,
    startFlush, sortBuffers, grownAt, flushLoops, countViolations, sortBy, violatingMmap, sampleLoop, sampleAt,
    PerfRecord.time, processSample, processTasks, forwardMmapBuffer, callUnlessStats, call, trailingLoop, Flush.leave,
    eraseUntil, countFlush, growBuffer, setTargetEventBufferSize]

theorem run_firstPairs : ∃ trace,
    (configured () false 8 8).run discard (samplePair 10 ++ samplePair 5) = grownAt 1 trace := ⟨_, rfl⟩

/-- `n + 1` pairs of samples too late for the flush before them, and a finished round. -/
def latePairs (n : Nat) : List Op := samplePair 10 ++ samplePair 5 ++ (repeated (samplePair 5) n ++ [.finishedRound])

theorem mem_latePairs {n : Nat} {op : Op} (h : op ∈ latePairs n) : op.configures = false := by
  have hpair : ∀ op ∈ samplePair 10 ++ samplePair 5 ++ samplePair 5 ++ [.finishedRound],
      op.configures = false := by decide
  rcases List.mem_append.1 h with h | h
  · exact hpair op (List.mem_append_left _ (List.mem_append_left _ h))
  · rcases List.mem_append.1 h with h | h
    · exact hpair op (List.mem_append_left _ (List.mem_append_right _ (mem_repeated h)))
    · exact hpair op (List.mem_append_right _ h)

theorem run_latePairs (n : Nat) : ∃ trace,
    (configured () false 8 8).run discard (latePairs n) = (grownAt (1 + .ofNat n) trace).finishedRound discard := by
  obtain ⟨trace, hfirst⟩ := run_firstPairs
  obtain ⟨trace', hrun, -⟩ := run_repeated run_latePair n 1 trace
  exact ⟨trace', by rw [latePairs, run_append, hfirst, run_snoc, hrun]; rfl⟩

theorem passed_samplePair (u : PerfUnwind Unit) (time : UInt64) :
    ∀ event ∈ u.passed discard (samplePair time), 8 ≤ event.size := by
  intro event h
  rcases List.mem_cons.1 h with rfl | h
  · exact UInt32.le_refl 8
  · cases List.mem_singleton.1 h
    exact UInt32.le_refl 8

theorem passed_latePairs (n : Nat) : ∀ event ∈ (configured () false 8 8).passed discard (latePairs n),
    8 ≤ event.size := by
  intro event h
  obtain ⟨trace, hfirst⟩ := run_firstPairs
  rw [latePairs, passed_append, passed_append, hfirst, passed_quiet rfl] at h
  rcases List.mem_append.1 h with h | h
  · exact (List.mem_append.1 h).elim (passed_samplePair _ 10 event) (passed_samplePair _ 5 event)
  · exact passed_repeated run_latePair (fun k trace => passed_samplePair _ 5) n _ _ event h

theorem fits_latePair (k : UInt32) (trace : List (Entry Unit)) : ∀ pre, pre <+: samplePair 5 →
    ((grownAt k trace).run discard pre).bufferedBytes < 2 ^ 32
  | [], _ => Nat.two_pow_pos 32
  | [op], h => by
    cases (List.cons_prefix_cons.1 h).1
    have hbytes : ((grownAt k trace).run discard [.sample (sampleAt 5)]).bufferedBytes = 8 := by
      with_unfolding_all rfl
    omega
  | op :: op' :: pre, h => by
    obtain ⟨h₁, h⟩ := List.cons_prefix_cons.1 h
    obtain ⟨h₂, h⟩ := List.cons_prefix_cons.1 h
    obtain ⟨trace', hrun, -⟩ := run_latePair k trace
    rw [h₁, h₂, List.prefix_nil.1 h, show [_, _] = samplePair 5 from rfl, hrun]
    exact Nat.two_pow_pos 32

theorem fits_latePairs (n : Nat) : ∀ pre, pre <+: latePairs n →
    ((configured () false 8 8).run discard pre).bufferedBytes < 2 ^ 32 := by
  intro pre h
  obtain ⟨trace, hfirst⟩ := run_firstPairs
  obtain ⟨trace', hrun, -⟩ := run_repeated run_latePair n 1 trace
  rcases List.prefix_or_prefix_of_prefix h (List.prefix_append (samplePair 10 ++ samplePair 5) _) with hpre | ⟨pre', rfl⟩
  · have hfits : ∀ pre ∈ (samplePair 10 ++ samplePair 5).inits,
        ((configured () false 8 8).run discard pre).bufferedBytes < 2 ^ 32 := by decide
    exact hfits pre ((List.mem_inits pre _).2 hpre)
  · rw [run_append, hfirst]
    rcases List.prefix_concat_iff.1 ((List.prefix_append_right_inj _).1 h) with rfl | hpre
    · rw [run_snoc, hrun]
      exact Nat.lt_of_le_of_lt (finishedRound_bufferedBytes _) (fits_latePair _ trace' [] List.nil_prefix)
    · exact fits_repeated run_latePair fits_latePair n _ _ pre' hpre

/-- **The count wraps**: after 2^32 violating flushes a finished round switches to automatic buffering again. -/
theorem run_not_grown : ¬∀ (targetSize maxSize : UInt32) (ops : List Op), maxSize ≠ 0 →
    (∀ op ∈ ops, op.configures = false) →
    (∀ event ∈ (configured () false targetSize maxSize).passed discard ops, 8 ≤ event.size) →
    (∀ pre, pre <+: ops → ((configured () false targetSize maxSize).run discard pre).bufferedBytes < 2 ^ 32) →
    ∀ pre pre', pre <+: pre' → pre' <+: ops →
      ((configured () false targetSize maxSize).run discard pre).timeOrderViolations ≠ 0 →
      ((configured () false targetSize maxSize).run discard pre').targetEventBufferSize ≠ 0 := by
  intro h
  obtain ⟨trace, hrun⟩ := run_latePairs (2 ^ 32 - 1)
  have hfirst : samplePair 10 ++ samplePair 5 <+: latePairs (2 ^ 32 - 1) := List.prefix_append _ _
  have hdynamic := h 8 8 (latePairs (2 ^ 32 - 1)) (by decide) (fun op => mem_latePairs) (passed_latePairs _)
    (fits_latePairs _) _ _ hfirst (List.prefix_refl _) (by decide)
  rw [hrun, show (1 : UInt32) + .ofNat (2 ^ 32 - 1) = 0 from rfl] at hdynamic
  exact hdynamic rfl

end PerfUnwind
end PerfParser
