import PerfParser.UnwindDrain
import PerfParser.Lib.History
/-!
# BufferSizes — the size of the event buffer, over whole runs (`perfunwind.cpp`)

A target size of zero stands for automatic buffering, by `FINISHED_ROUND` events.  Trace points switch back to the last
size, time order violations make the buffer grow.  `Buffering` is what decides this, and `apply_adapts` says what an
operation does to it.
-/
namespace PerfParser

open History (Always)
open Relation (ReflTransGen)

/-! ## The sizes and the switch -/

/-- The sizes of the buffer, with what decides whether it is switched to automatic buffering. -/
structure Buffering where
  lastSize : UInt32
  maxSize : UInt32
  targetSize : UInt32
  violations : UInt32
  tracePoints : Bool
deriving DecidableEq, Repr

namespace Buffering

def setTarget (b : Buffering) (size : UInt32) : Buffering :=
  { b with lastSize := b.targetSize, targetSize := size, maxSize := max b.maxSize size }

def revert (b : Buffering) : Buffering := b.setTarget b.lastSize

/-- Trace points switch to dynamic buffering. -/
def announceTracePoint (b : Buffering) : Buffering := if b.targetSize = 0 then b.revert else b

/-- The switch to automatic buffering, unless it is known to be wrong. -/
def switch (b : Buffering) : Buffering := if b.violations = 0 ∧ ¬b.tracePoints then b.setTarget 0 else b

/-- Twice the size, within 32 bits and within the maximum. -/
def grownSize (b : Buffering) (size : UInt32) : UInt32 :=
  let size := if size < b.lastSize then b.lastSize else size
  let size := if size > 0xFFFFFFFF / 2 then 0xFFFFFFFF else size * 2
  if size > b.maxSize then b.maxSize else size

def grow (b : Buffering) (size : UInt32) : Buffering :=
  { b with violations := b.violations + 1 }.setTarget (b.grownSize size)

@[simp] theorem setTarget_targetSize (b : Buffering) (size : UInt32) : (b.setTarget size).targetSize = size := rfl

@[simp] theorem setTarget_lastSize (b : Buffering) (size : UInt32) : (b.setTarget size).lastSize = b.targetSize := rfl

@[simp] theorem setTarget_maxSize (b : Buffering) (size : UInt32) :
    (b.setTarget size).maxSize = max b.maxSize size := rfl

@[simp] theorem setTarget_violations (b : Buffering) (size : UInt32) :
    (b.setTarget size).violations = b.violations := rfl

@[simp] theorem setTarget_tracePoints (b : Buffering) (size : UInt32) :
    (b.setTarget size).tracePoints = b.tracePoints := rfl

@[simp] theorem grow_violations (b : Buffering) (size : UInt32) : (b.grow size).violations = b.violations + 1 := rfl

@[simp] theorem grow_tracePoints (b : Buffering) (size : UInt32) : (b.grow size).tracePoints = b.tracePoints := rfl

@[simp] theorem grow_targetSize (b : Buffering) (size : UInt32) : (b.grow size).targetSize = b.grownSize size := rfl

theorem max_of_le {a b : UInt32} (h : b ≤ a) : max a b = a := by
  rw [show max a b = if a ≤ b then b else a from rfl]
  split
  · rename_i h'
    exact UInt32.le_antisymm h h'
  · rfl

/-- **The doubling never overflows.** -/
theorem grownSize_toNat (b : Buffering) (size : UInt32) : (b.grownSize size).toNat =
    min b.maxSize.toNat (min (2 * max size.toNat b.lastSize.toNat) (2 ^ 32 - 1)) := by
  have hlast : (if size < b.lastSize then b.lastSize else size).toNat = max size.toNat b.lastSize.toNat := by
    split <;> rename_i h
    · exact (Nat.max_eq_right (Nat.le_of_lt (UInt32.lt_iff_toNat_lt.1 h))).symm
    · exact (Nat.max_eq_left (UInt32.le_iff_toNat_le.1 (UInt32.not_lt.1 h))).symm
  unfold grownSize
  dsimp only
  generalize (if size < b.lastSize then b.lastSize else size) = n at hlast ⊢
  rw [← hlast]
  have hn := n.toNat_lt
  have hdouble : (if n > 0xFFFFFFFF / 2 then 0xFFFFFFFF else n * 2).toNat = min (2 * n.toNat) (2 ^ 32 - 1) := by
    split <;> rename_i h
    · have h := UInt32.lt_iff_toNat_lt.1 h
      rw [show ((0xFFFFFFFF : UInt32) / 2).toNat = 2147483647 from rfl] at h
      rw [show (0xFFFFFFFF : UInt32).toNat = 2 ^ 32 - 1 from rfl]
      omega
    · have h := UInt32.le_iff_toNat_le.1 (UInt32.not_lt.1 h)
      rw [show ((0xFFFFFFFF : UInt32) / 2).toNat = 2147483647 from rfl] at h
      rw [UInt32.toNat_mul, show (2 : UInt32).toNat = 2 from rfl]
      omega
  generalize (if n > 0xFFFFFFFF / 2 then 0xFFFFFFFF else n * 2) = m at hdouble ⊢
  rw [← hdouble]
  split <;> rename_i h
  · exact (Nat.min_eq_left (Nat.le_of_lt (UInt32.lt_iff_toNat_lt.1 h))).symm
  · exact (Nat.min_eq_right (UInt32.le_iff_toNat_le.1 (UInt32.not_lt.1 h))).symm

theorem grownSize_le (b : Buffering) (size : UInt32) : b.grownSize size ≤ b.maxSize := by
  rw [UInt32.le_iff_toNat_le, grownSize_toNat]
  exact Nat.min_le_left _ _

@[simp] theorem max_grownSize (b : Buffering) (size : UInt32) : max b.maxSize (b.grownSize size) = b.maxSize :=
  max_of_le (b.grownSize_le size)

@[simp] theorem grow_maxSize (b : Buffering) (size : UInt32) : (b.grow size).maxSize = b.maxSize :=
  b.max_grownSize size

/-- A buffer grows to nothing only from nothing, or where nothing is allowed. -/
theorem grownSize_eq_zero (b : Buffering) (size : UInt32) :
    b.grownSize size = 0 ↔ b.maxSize = 0 ∨ (size = 0 ∧ b.lastSize = 0) := by
  simp only [← UInt32.toNat_inj, grownSize_toNat, UInt32.toNat_zero]
  omega

/-- An attribute is stored, of a trace point or not. -/
def store (b : Buffering) (tracePoint : Bool) : Buffering := { b with tracePoints := b.tracePoints || tracePoint }

@[simp] theorem store_false (b : Buffering) : b.store false = b := by
  simp [store]

@[simp] theorem store_store (b : Buffering) (tracePoint tracePoint' : Bool) :
    (b.store tracePoint).store tracePoint' = b.store (tracePoint || tracePoint') := by
  simp [store, Bool.or_assoc]

@[simp] theorem announceTracePoint_store (b : Buffering) (tracePoint : Bool) :
    (b.store tracePoint).announceTracePoint = b.announceTracePoint.store tracePoint := by
  unfold announceTracePoint
  rw [show (b.store tracePoint).targetSize = b.targetSize from rfl]
  split <;> rfl

/-- Attributes are announced, some of a trace point or not, some of these stored or not. -/
def announce (b : Buffering) (tracePoint stored : Bool) : Buffering :=
  (if tracePoint then b.announceTracePoint else b).store stored

/-- A second announcement of a trace point changes nothing. -/
@[simp] theorem announceTracePoint_twice (b : Buffering) :
    b.announceTracePoint.announceTracePoint = b.announceTracePoint := by
  unfold announceTracePoint
  by_cases h : b.targetSize = 0
  · rw [if_pos h]
    by_cases hr : b.revert.targetSize = 0
    · rw [if_pos hr]
      simp only [revert, setTarget_targetSize] at hr
      simp [revert, setTarget, h, hr, max_of_le (a := max b.maxSize 0) (b := 0) (UInt32.zero_le)]
    · rw [if_neg hr]
  · rw [if_neg h, if_neg h]

theorem announce_announce (b : Buffering) (tracePoint stored tracePoint' stored' : Bool) :
    (b.announce tracePoint stored).announce tracePoint' stored' =
      b.announce (tracePoint || tracePoint') (stored || stored') := by
  cases tracePoint <;> cases tracePoint' <;> simp [announce]

end Buffering

/-! ## What an operation announces -/

namespace Op

/-- The attributes that an operation announces, with their ids. -/
def announced : Op → List (PerfEventAttributes × List UInt64)
  | .attr a => [(a.attr, a.ids)]
  | .features f => f.eventDescs.map (fun desc => (desc.attrs, desc.ids))
  | _ => []

def isTracePoint (a : PerfEventAttributes × List UInt64) : Bool := a.1.type = PerfEventAttributes.TYPE_TRACEPOINT

/-- An attribute of a trace point is among them. -/
def announcesTracePoint (op : Op) : Bool := op.announced.any isTracePoint

/-- The operations that set the sizes. -/
def configures : Op → Bool
  | .setMaxEventBufferSize _ => true
  | .setTargetEventBufferSize _ => true
  | _ => false

end Op

namespace PerfUnwind

variable {σ : Type} {B : Backend σ}

def buffering (u : PerfUnwind σ) : Buffering where
  lastSize := u.lastEventBufferSize
  maxSize := u.maxEventBufferSize
  targetSize := u.targetEventBufferSize
  violations := u.timeOrderViolations
  tracePoints := u.hasTracePointAttributes

/-! ## The setters

They call each other, and the calls end. -/

mutual

/-- `setMaxEventBufferSize`, within a bound on the depth of its calls. -/
def setMaxEventBufferSizeRec : Nat → PerfUnwind σ → UInt32 → Option (PerfUnwind σ)
  | 0, _, _ => none
  | depth + 1, u, size =>
    let u := { u with maxEventBufferSize := size }
    if size < u.targetEventBufferSize then setTargetEventBufferSizeRec depth u size else some u

@[inherit_doc setMaxEventBufferSizeRec]
def setTargetEventBufferSizeRec : Nat → PerfUnwind σ → UInt32 → Option (PerfUnwind σ)
  | 0, _, _ => none
  | depth + 1, u, size =>
    let u := { u with lastEventBufferSize := u.targetEventBufferSize }
    let u := { u with targetEventBufferSize := size }
    if size > u.maxEventBufferSize then setMaxEventBufferSizeRec depth u size else some u

end

/-- **Neither setter calls the other more than once.** -/
theorem setMaxEventBufferSizeRec_eq (depth : Nat) (u : PerfUnwind σ) (size : UInt32) :
    setMaxEventBufferSizeRec (depth + 2) u size = some (u.setMaxEventBufferSize size) := by
  unfold setMaxEventBufferSizeRec setMaxEventBufferSize
  dsimp only
  split
  · unfold setTargetEventBufferSizeRec
    exact if_neg (UInt32.lt_irrefl size)
  · rfl

@[inherit_doc setMaxEventBufferSizeRec_eq]
theorem setTargetEventBufferSizeRec_eq (depth : Nat) (u : PerfUnwind σ) (size : UInt32) :
    setTargetEventBufferSizeRec (depth + 2) u size = some (u.setTargetEventBufferSize size) := by
  unfold setTargetEventBufferSizeRec setTargetEventBufferSize
  dsimp only
  split
  · unfold setMaxEventBufferSizeRec setMaxEventBufferSize
    dsimp only
    rw [if_neg (UInt32.lt_irrefl size), if_neg (UInt32.lt_irrefl size)]
  · rfl

@[simp] theorem buffering_setTargetEventBufferSize (u : PerfUnwind σ) (size : UInt32) :
    (u.setTargetEventBufferSize size).buffering = u.buffering.setTarget size := by
  unfold setTargetEventBufferSize Buffering.setTarget
  dsimp only
  split <;> rename_i h
  · unfold setMaxEventBufferSize
    dsimp only
    rw [if_neg (UInt32.lt_irrefl size)]
    have hmax : max u.buffering.maxSize size = size := if_pos (UInt32.le_of_lt h)
    rw [hmax]
    rfl
  · have hmax : max u.buffering.maxSize size = u.buffering.maxSize := Buffering.max_of_le (UInt32.not_lt.1 h)
    rw [hmax]
    rfl

/-! ## A flush -/

theorem buffering_of_settings {u v : PerfUnwind σ} (h : u.settings = v.settings) : u.buffering = v.buffering := by
  obtain ⟨hr, hl, hm, ht, hv, -⟩ := Settings.mk.inj h
  unfold buffering hasTracePointAttributes
  rw [hr, hl, hm, ht, hv]

@[simp] theorem buffering_call (u : PerfUnwind σ) (x : Call) : (u.call B x).buffering = u.buffering := rfl

theorem buffering_startFlush (u : PerfUnwind σ) : (u.startFlush B).unwind.buffering = u.buffering := by
  have hcount : u.sortBuffers.countViolations.buffering = u.buffering := by
    unfold countViolations
    split <;> rfl
  rw [← hcount]
  unfold startFlush
  dsimp only
  cases u.sortBuffers.countViolations.violatingMmap <;> rfl

theorem buffering_eraseUntil (u : PerfUnwind σ) (samples : List PerfRecordSample) (mmaps : List PerfRecordMmap)
    (tasks : List TaskEvent) : (u.eraseUntil samples mmaps tasks).buffering = u.buffering := by
  unfold eraseUntil countFlush
  dsimp only
  split <;> rfl

theorem buffering_flushLoops (f : Flush σ) (desired : UInt32) :
    (flushLoops B f desired).1.buffering = f.unwind.buffering := by
  unfold flushLoops
  dsimp only
  rw [buffering_eraseUntil, buffering_of_settings (settings_of_frame (frame_trailingLoop desired _ _))]
  exact buffering_of_settings (settings_sampleLoop (B := B) desired f f.unwind.sampleBuffer)

theorem buffering_growBuffer (u : PerfUnwind σ) (size : UInt32) : (u.growBuffer size).buffering = u.buffering.grow size :=
  buffering_setTargetEventBufferSize _ _

/-- **A flush makes the buffer grow exactly where it counts a violation.** -/
theorem flushEventBuffer_buffering (u : PerfUnwind σ) (desired : UInt32) : (u.flushEventBuffer B desired).buffering =
    if u.violates B desired then u.buffering.grow u.eventBufferSize else u.buffering := by
  unfold flushEventBuffer violates
  dsimp only
  split
  · rw [buffering_growBuffer, buffering_flushLoops, buffering_startFlush]
  · rw [buffering_flushLoops, buffering_startFlush]

/-! ## Attributes -/

/-- The ids that are known already. -/
def known (u : PerfUnwind σ) (id : UInt64) : Bool := u.registry.attributeIds.contains id

/-- An attribute of a trace point is stored: one of its ids is not known yet. -/
def storesTracePoint : (UInt64 → Bool) → List (PerfEventAttributes × List UInt64) → Bool
  | _, [] => false
  | known, a :: attributes =>
    (Op.isTracePoint a && (a.2 ++ [0]).any (fun id => !known id)) ||
      storesTracePoint (fun id => known id || (a.2 ++ [0]).contains id) attributes

/-- What an operation announces, to what decides on the buffering. -/
def announced (u : PerfUnwind σ) (op : Op) : Buffering :=
  u.buffering.announce op.announcesTracePoint (storesTracePoint u.known op.announced)

variable (attributes : PerfEventAttributes) (name : QByteArray) (ids : List UInt64)

theorem registry_revert (u : PerfUnwind σ) : u.revertTargetEventBufferSize.registry = u.registry := by
  unfold revertTargetEventBufferSize setTargetEventBufferSize
  dsimp only
  split
  · unfold setMaxEventBufferSize
    split <;> rfl
  · rfl

/-- The part of `addAttributes` before the attribute is stored. -/
theorem revert_buffering (u : PerfUnwind σ) :
    (if attributes.type = PerfEventAttributes.TYPE_TRACEPOINT ∧ u.targetEventBufferSize = 0 then
        u.revertTargetEventBufferSize else u).buffering =
      u.buffering.announce (Op.isTracePoint (attributes, ids)) false := by
  unfold Buffering.announce Buffering.announceTracePoint Op.isTracePoint
  by_cases ha : attributes.type = PerfEventAttributes.TYPE_TRACEPOINT
  · by_cases ht : u.targetEventBufferSize = 0
    · have hb : u.buffering.targetSize = 0 := ht
      rw [if_pos ⟨ha, ht⟩, revertTargetEventBufferSize, buffering_setTargetEventBufferSize]
      simp only [ha, hb, Buffering.revert, Buffering.store_false, decide_true, if_true]
      rfl
    · have hb : u.buffering.targetSize ≠ 0 := ht
      rw [if_neg (fun h => ht h.2)]
      simp [ha, hb]
  · rw [if_neg (fun h => ha h.1)]
    simp [ha]

theorem buffering_store (u : PerfUnwind σ) :
    ({ u with registry := { u.registry with attributes := u.registry.attributes ++ [attributes] } } :
      PerfUnwind σ).buffering = u.buffering.store (Op.isTracePoint (attributes, ids)) := by
  simp [buffering, Buffering.store, hasTracePointAttributes, Op.isTracePoint]

theorem addAttributes_buffering (u : PerfUnwind σ) : (u.addAttributes B attributes name ids).buffering =
    u.buffering.announce (Op.isTracePoint (attributes, ids)) (storesTracePoint u.known [(attributes, ids)]) := by
  have hrevert := revert_buffering attributes ids u
  have hstore := fun v : PerfUnwind σ => buffering_store attributes ids v
  have hfilter : ((ids ++ [0]).filter (fun id => !u.registry.attributeIds.contains id)).isEmpty =
      !(ids ++ [0]).any (fun id => !u.known id) := by
    rw [Bool.eq_iff_iff]
    simp [known]
  unfold addAttributes
  dsimp only
  generalize (if attributes.type = PerfEventAttributes.TYPE_TRACEPOINT ∧ u.targetEventBufferSize = 0 then
    u.revertTargetEventBufferSize else u) = v at hrevert ⊢
  rw [hfilter]
  simp only [storesTracePoint, Bool.or_false]
  cases hany : (ids ++ [0]).any (fun id => !u.known id) with
  | false =>
    rw [if_pos (show (!false) = true from rfl), hrevert, Bool.and_false]
  | true =>
    rw [if_neg (by decide), Bool.and_true]
    exact (hstore v).trans (by rw [hrevert, Buffering.announce, Buffering.store_false, Buffering.announce])

theorem addAttributes_known (u : PerfUnwind σ) (id : UInt64) : (u.addAttributes B attributes name ids).known id =
    (u.known id || (ids ++ [0]).contains id) := by
  have hregistry : (if attributes.type = PerfEventAttributes.TYPE_TRACEPOINT ∧ u.targetEventBufferSize = 0 then
      u.revertTargetEventBufferSize else u).registry = u.registry := by
    split
    · exact registry_revert u
    · rfl
  have hfresh : (u.known id || ((ids ++ [0]).filter (fun id => !u.registry.attributeIds.contains id)).contains id) =
      (u.known id || (ids ++ [0]).contains id) := by
    rw [Bool.eq_iff_iff]
    simp only [Bool.or_eq_true, List.contains_iff_mem, List.mem_filter, known]
    cases u.registry.attributeIds.contains id <;> simp
  unfold addAttributes
  dsimp only
  generalize (if attributes.type = PerfEventAttributes.TYPE_TRACEPOINT ∧ u.targetEventBufferSize = 0 then
    u.revertTargetEventBufferSize else u) = v at hregistry ⊢
  rw [← hfresh]
  split
  · rename_i hempty
    rw [List.isEmpty_iff.1 hempty]
    simp [known, hregistry]
  · dsimp only [known, call]
    rw [QHash.contains_foldl_insert, List.map_id', hregistry]

theorem attr_buffering (u : PerfUnwind σ) (attr : PerfRecordAttr) :
    (u.attr B attr).buffering = u.announced (.attr attr) := by
  rw [PerfUnwind.attr, addAttributes_buffering]
  unfold announced Op.announcesTracePoint Op.announced
  simp only [List.any_cons, List.any_nil, Bool.or_false]

theorem addAll_buffering : ∀ (descs : List EventDesc) (u : PerfUnwind σ),
    (descs.foldl (fun u desc => u.addAttributes B desc.attrs desc.name desc.ids) u).buffering =
      u.buffering.announce ((descs.map (fun desc => (desc.attrs, desc.ids))).any Op.isTracePoint)
        (storesTracePoint u.known (descs.map (fun desc => (desc.attrs, desc.ids))))
  | [], u => u.buffering.store_false.symm
  | desc :: descs, u => by
    have hknown : (u.addAttributes B desc.attrs desc.name desc.ids).known =
        fun id => u.known id || (desc.ids ++ [0]).contains id := by
      funext id
      exact addAttributes_known desc.attrs desc.name desc.ids u id
    rw [List.foldl_cons, addAll_buffering descs, addAttributes_buffering, Buffering.announce_announce, hknown]
    simp [storesTracePoint]

theorem tracing_buffering (u : PerfUnwind σ) (tracingData : PerfTracingData) :
    (u.tracing B tracingData).buffering = u.buffering ∧ (u.tracing B tracingData).known = u.known := by
  have hcalls : ∀ (formats : List (Int32 × EventFormat)) (u : PerfUnwind σ),
      (formats.foldl (fun u (p : Int32 × EventFormat) => u.call B (.sendEventFormat p.1 p.2)) u).buffering =
          u.buffering ∧
        (formats.foldl (fun u (p : Int32 × EventFormat) => u.call B (.sendEventFormat p.1 p.2)) u).known = u.known := by
    intro formats
    induction formats with
    | nil => exact fun u => ⟨rfl, rfl⟩
    | cons p formats ih => exact fun u => ih (u.call B (.sendEventFormat p.1 p.2))
  exact hcalls tracingData.eventFormats.entries { u with registry := { u.registry with tracingData := tracingData } }

theorem switch_buffering (u : PerfUnwind σ) :
    (if u.timeOrderViolations = 0 ∧ ¬u.hasTracePointAttributes then u.setTargetEventBufferSize 0 else u).buffering =
      u.buffering.switch := by
  rw [Buffering.switch, ← buffering_setTargetEventBufferSize, ← apply_ite]
  rfl

theorem checkVersion_buffering (u : PerfUnwind σ) (version : QByteArray) : (u.checkVersion version).buffering =
    if QVersionNumber.le [3, 17] (QVersionNumber.fromString version) then u.buffering.switch else u.buffering := by
  rw [← switch_buffering]
  unfold checkVersion
  by_cases hv : QVersionNumber.le [3, 17] (QVersionNumber.fromString version) = true
  · simp only [hv, true_and, if_true]
  · rw [if_neg (fun h => hv h.1), if_neg hv]

theorem features_buffering (u : PerfUnwind σ) (features : PerfFeatures) : (u.features B features).buffering =
    if QVersionNumber.le [3, 17] (QVersionNumber.fromString features.version) then
      (u.announced (.features features)).switch
    else u.announced (.features features) := by
  obtain ⟨hb, hk⟩ := tracing_buffering (B := B) u features.tracingData
  have hall := addAll_buffering (B := B) features.eventDescs (u.tracing B features.tracingData)
  rw [hb, hk] at hall
  unfold announced Op.announcesTracePoint Op.announced
  rw [← hall, ← checkVersion_buffering]
  rfl

/-! ## Operations -/

theorem bufferEvent_buffering (u : PerfUnwind σ) (event : Event) : (u.bufferEvent B event).buffering =
    if (u.targetEventBufferSize ≠ 0 ∧ u.eventBufferSize + event.size > u.targetEventBufferSize) ∧
        (u.enqueue event).violates B (u.targetEventBufferSize / 2) then
      u.buffering.grow (u.eventBufferSize + event.size)
    else u.buffering := by
  have henqueue : (u.enqueue event).buffering = u.buffering ∧
      (u.enqueue event).eventBufferSize = u.eventBufferSize + event.size := by
    unfold enqueue append
    cases event <;> dsimp only <;> split <;> exact ⟨rfl, rfl⟩
  obtain ⟨hb, hs⟩ := henqueue
  have ht : (u.enqueue event).targetEventBufferSize = u.targetEventBufferSize := congrArg Buffering.targetSize hb
  unfold bufferEvent
  dsimp only
  rw [ht, hs]
  by_cases hfull : u.targetEventBufferSize ≠ 0 ∧ u.eventBufferSize + event.size > u.targetEventBufferSize
  · rw [if_pos hfull, flushEventBuffer_buffering, hb, hs]
    simp only [hfull, ne_eq, not_false_eq_true, and_self, true_and]
  · rw [if_neg hfull, if_neg (fun h => hfull h.1), hb]

/-- `finishedRound` after its statistics. -/
theorem finishedRound_buffering (u : PerfUnwind σ) : ∃ stats, (u.finishedRound B).buffering =
    if u.targetEventBufferSize = 0 then
      if ({ u with stats := stats } : PerfUnwind σ).violates B (u.eventBufferSize / 2) then
        u.buffering.grow u.eventBufferSize
      else u.buffering
    else u.buffering.switch := by
  have hround : ∃ stats, (if u.stats.enabled then { u with stats := u.stats.finishedRound } else u) =
      { u with stats := stats } := by
    split
    · exact ⟨_, rfl⟩
    · exact ⟨u.stats, rfl⟩
  obtain ⟨stats, hround⟩ := hround
  refine ⟨stats, ?_⟩
  unfold finishedRound
  dsimp only
  rw [hround]
  generalize hv : ({ u with stats := stats } : PerfUnwind σ) = v
  have hb : v.buffering = u.buffering := hv ▸ rfl
  have hs : v.eventBufferSize = u.eventBufferSize := hv ▸ rfl
  have ht : v.targetEventBufferSize = u.targetEventBufferSize := hv ▸ rfl
  rw [← hb, ← hs, ← ht]
  split
  · exact flushEventBuffer_buffering v _
  · exact switch_buffering v

/-- An operation that buffers an event does nothing before that to what `buffering` sees. -/
theorem apply_event {u : PerfUnwind σ} {op : Op} {event : Event} (h : u.event? B op = some event) :
    ∃ back, u.apply B op = { u with back := back }.bufferEvent B event := by
  cases op with
  | comm comm =>
    cases h
    exact ⟨_, rfl⟩
  | registerElf => cases h; exact ⟨u.back, rfl⟩
  | sample => cases h; exact ⟨u.back, rfl⟩
  | lost => cases h; exact ⟨u.back, rfl⟩
  | fork => cases h; exact ⟨u.back, rfl⟩
  | exit => cases h; exact ⟨u.back, rfl⟩
  | contextSwitch => cases h; exact ⟨u.back, rfl⟩
  | _ => cases h

theorem announced_nil {op : Op} (h : op.announced = []) (u : PerfUnwind σ) : u.announced op = u.buffering := by
  rw [announced, Op.announcesTracePoint, h]
  exact u.buffering.store_false

theorem event_announced {u : PerfUnwind σ} {op : Op} {event : Event} (h : u.event? B op = some event) :
    op.announced = [] := by
  cases op <;> first | rfl | cases h

/-- What `buffering` goes through after the attributes are announced. -/
inductive Adapt : Buffering → Buffering → Prop
  | switch (b : Buffering) : Adapt b b.switch
  | grow (b : Buffering) (size : UInt32) : Adapt b (b.grow size)

abbrev Adapts : Buffering → Buffering → Prop := ReflTransGen Adapt

theorem flushEventBuffer_adapts (u : PerfUnwind σ) (desired : UInt32) :
    Adapts u.buffering (u.flushEventBuffer B desired).buffering := by
  rw [flushEventBuffer_buffering]
  split
  · exact .single (.grow _ _)
  · exact .refl

theorem finishedRound_adapts (u : PerfUnwind σ) : Adapts u.buffering (u.finishedRound B).buffering := by
  obtain ⟨stats, hround⟩ := finishedRound_buffering (B := B) u
  rw [hround]
  split
  · split
    · exact .single (.grow _ _)
    · exact .refl
  · exact .single (.switch _)

/-- **An operation announces attributes, and then only switches to automatic buffering and grows.** -/
theorem apply_adapts (u : PerfUnwind σ) {op : Op} (h : op.configures = false) :
    Adapts (u.announced op) (u.apply B op).buffering := by
  cases he : u.event? B op with
  | some event =>
    obtain ⟨back, ha⟩ := apply_event he
    rw [announced_nil (event_announced he), ha, bufferEvent_buffering]
    split
    · exact .single (.grow u.buffering _)
    · exact .refl
  | none =>
    cases op with
    | finishedRound =>
      rw [announced_nil rfl]
      exact finishedRound_adapts u
    | finalize =>
      rw [announced_nil rfl]
      exact (finishedRound_adapts u).trans (flushEventBuffer_adapts _ 0)
    | tracing tracingData =>
      rw [announced_nil rfl, show (u.apply B (.tracing tracingData)).buffering = _ from
        (tracing_buffering u tracingData).1]
    | attr attr =>
      rw [show (u.apply B (.attr attr)).buffering = _ from attr_buffering u attr]
    | features features =>
      rw [show (u.apply B (.features features)).buffering = _ from features_buffering u features]
      split
      · exact .single (.switch _)
      · exact .refl
    | setMaxEventBufferSize size => cases h
    | setTargetEventBufferSize size => cases h
    | _ => cases he

theorem Adapts.maxSize {b b' : Buffering} (h : Adapts b b') : b'.maxSize = b.maxSize := by
  induction h with
  | refl => rfl
  | tail _ h ih =>
    cases h with
    | grow => rw [Buffering.grow_maxSize, ih]
    | switch =>
      rw [← ih]
      unfold Buffering.switch
      split
      · exact Buffering.max_of_le UInt32.zero_le
      · rfl

theorem Adapts.tracePoints {b b' : Buffering} (h : Adapts b b') : b'.tracePoints = b.tracePoints := by
  induction h with
  | refl => rfl
  | tail _ h ih =>
    cases h with
    | grow => exact ih
    | switch =>
      rw [← ih]
      unfold Buffering.switch
      split <;> rfl

/-! ## The limit -/

end PerfUnwind

namespace Buffering

/-- The target is within the maximum. -/
def Fits (b : Buffering) : Prop := b.targetSize ≤ b.maxSize

theorem setTarget_fits (b : Buffering) (size : UInt32) : (b.setTarget size).Fits := by
  rw [Fits, setTarget_targetSize, setTarget_maxSize]
  by_cases h : b.maxSize ≤ size
  · rw [show max b.maxSize size = size from if_pos h]
    exact UInt32.le_refl size
  · rw [show max b.maxSize size = b.maxSize from if_neg h]
    exact UInt32.le_of_lt (UInt32.not_le.1 h)

theorem announce_fits {b : Buffering} (h : b.Fits) (tracePoint stored : Bool) : (b.announce tracePoint stored).Fits := by
  unfold announce announceTracePoint
  cases tracePoint with
  | false => exact h
  | true =>
    by_cases ht : b.targetSize = 0
    · rw [if_pos rfl, if_pos ht]
      exact setTarget_fits b b.lastSize
    · rw [if_pos rfl, if_neg ht]
      exact h

theorem announce_maxSize (b : Buffering) (tracePoint stored : Bool) : (b.announce tracePoint stored).maxSize =
    if tracePoint ∧ b.targetSize = 0 then max b.maxSize b.lastSize else b.maxSize := by
  unfold announce announceTracePoint
  cases tracePoint with
  | false => rfl
  | true =>
    by_cases ht : b.targetSize = 0
    · simp only [ht, if_true, and_self]
      rfl
    · simp only [ht, if_true, if_false, and_false]
      rfl

end Buffering

namespace PerfUnwind

theorem Adapts.fits {b b' : Buffering} (h : Adapts b b') (hb : b.Fits) : b'.Fits := by
  induction h with
  | refl => exact hb
  | tail _ h ih =>
    cases h with
    | grow size => exact Buffering.setTarget_fits _ _
    | switch =>
      unfold Buffering.switch
      split
      · exact Buffering.setTarget_fits _ _
      · exact ih

/-- The unwinder that `main` sets up. -/
def configured (back : σ) (printStats : Bool) (targetSize maxSize : UInt32) : PerfUnwind σ :=
  (({ back := back, stats := { enabled := printStats } } : PerfUnwind σ).setTargetEventBufferSize targetSize
    ).setMaxEventBufferSize maxSize

/-- The sizes are within the maximum that is set. -/
structure Limited (u : PerfUnwind σ) (maxSize : UInt32) : Prop where
  max_eq : u.maxEventBufferSize = maxSize
  target_le : u.targetEventBufferSize ≤ maxSize

theorem limited_iff {u : PerfUnwind σ} {maxSize : UInt32} (h : u.buffering.Fits) :
    u.Limited maxSize ↔ u.buffering.maxSize = maxSize :=
  ⟨fun hl => hl.max_eq, fun he => ⟨he, he ▸ h⟩⟩

theorem apply_fits {u : PerfUnwind σ} (h : u.buffering.Fits) {op : Op} (hop : op.configures = false) :
    (u.apply B op).buffering.Fits := (apply_adapts u hop).fits (Buffering.announce_fits h _ _)

theorem setMaxEventBufferSize_limited (u : PerfUnwind σ) (maxSize : UInt32) :
    (u.setMaxEventBufferSize maxSize).Limited maxSize := by
  unfold setMaxEventBufferSize
  split
  · exact ⟨rfl, UInt32.le_refl maxSize⟩
  · rename_i h
    exact ⟨rfl, UInt32.not_lt.1 h⟩

theorem configured_limited (back : σ) (printStats : Bool) (targetSize maxSize : UInt32) :
    (configured back printStats targetSize maxSize).Limited maxSize := setMaxEventBufferSize_limited _ _

theorem configured_fits (back : σ) (printStats : Bool) (targetSize maxSize : UInt32) :
    (configured back printStats targetSize maxSize).buffering.Fits := by
  obtain ⟨hmax, htarget⟩ := configured_limited back printStats targetSize maxSize
  exact UInt32.le_trans htarget (UInt32.le_of_eq hmax.symm)

/-- The size to go back to is within the maximum, where an operation goes back to it. -/
def RevertsWithin (u : PerfUnwind σ) (maxSize : UInt32) (op : Op) : Prop :=
  op.announcesTracePoint = true → u.targetEventBufferSize = 0 → u.lastEventBufferSize ≤ maxSize

theorem apply_limited_iff {u : PerfUnwind σ} (hfits : u.buffering.Fits) {maxSize : UInt32} (h : u.Limited maxSize)
    {op : Op}
    (hop : op.configures = false) : (u.apply B op).Limited maxSize ↔ u.RevertsWithin maxSize op := by
  rw [limited_iff (apply_fits hfits hop), (apply_adapts u hop).maxSize, announced, Buffering.announce_maxSize]
  have hmax : u.buffering.maxSize = maxSize := h.max_eq
  unfold RevertsWithin
  by_cases ht : op.announcesTracePoint = true ∧ u.buffering.targetSize = 0
  · rw [if_pos ht, hmax]
    have hle : max maxSize u.buffering.lastSize = maxSize ↔ u.lastEventBufferSize ≤ maxSize := by
      constructor
      · intro he
        by_cases hlt : maxSize ≤ u.buffering.lastSize
        · rw [show max maxSize u.buffering.lastSize = u.buffering.lastSize from if_pos hlt] at he
          exact UInt32.le_of_eq he
        · exact UInt32.le_of_lt (UInt32.not_le.1 hlt)
      · exact Buffering.max_of_le
    rw [hle]
    exact ⟨fun hl _ _ => hl, fun hl => hl ht.1 ht.2⟩
  · rw [if_neg ht]
    exact iff_of_true hmax (fun ha h0 => (ht ⟨ha, h0⟩).elim)

/-- **The sizes stay within the maximum exactly as long as no trace point goes back to a size beyond it**; and the
setters return. -/
theorem run_limited_iff (B : Backend σ) (back : σ) (printStats : Bool) (targetSize maxSize : UInt32) (ops : List Op)
    (hops : ∀ op ∈ ops, op.configures = false) :
    ((∀ pre, pre <+: ops → ((configured back printStats targetSize maxSize).run B pre).Limited maxSize) ↔
      Always (fun pre op => ((configured back printStats targetSize maxSize).run B pre).RevertsWithin maxSize op) ops) ∧
    ∀ (u : PerfUnwind σ) (size : UInt32) (depth : Nat),
      setMaxEventBufferSizeRec (depth + 2) u size = some (u.setMaxEventBufferSize size) ∧
      setTargetEventBufferSizeRec (depth + 2) u size = some (u.setTargetEventBufferSize size) := by
  refine ⟨?_, fun u size depth => ⟨setMaxEventBufferSizeRec_eq depth u size, setTargetEventBufferSizeRec_eq depth u size⟩⟩
  exact History.forall_prefix_iff (I := fun u : PerfUnwind σ => u.buffering.Fits)
    (R := fun u : PerfUnwind σ => u.Limited maxSize) (A := fun op => op.configures = false)
    (C := fun u op => u.RevertsWithin maxSize op) (f := fun u op => u.apply B op)
    (fun u op hop hfits => apply_fits hfits hop) (fun u op hop hfits h => apply_limited_iff hfits h hop)
    (configured_fits back printStats targetSize maxSize) (configured_limited back printStats targetSize maxSize) ops hops

/-- An attribute of a trace point. -/
def tracePointAttr : PerfRecordAttr where
  attr := { type := PerfEventAttributes.TYPE_TRACEPOINT }

theorem run_limited_tracePoint :
    ((∀ pre, pre <+: [.attr tracePointAttr, .finishedRound] →
        ((configured () false 1024 4096).run discard pre).Limited 4096) ↔
      Always (fun pre op => ((configured () false 1024 4096).run discard pre).RevertsWithin 4096 op)
        [.attr tracePointAttr, .finishedRound]) ∧
    ∀ (u : PerfUnwind Unit) (size : UInt32) (depth : Nat),
      setMaxEventBufferSizeRec (depth + 2) u size = some (u.setMaxEventBufferSize size) ∧
      setTargetEventBufferSizeRec (depth + 2) u size = some (u.setTargetEventBufferSize size) :=
  run_limited_iff discard () false 1024 4096 [.attr tracePointAttr, .finishedRound] (by decide)

/-- Asked for no buffer and at most a megabyte, a trace point gets the default 32 megabytes. -/
theorem run_not_limited : ¬∀ (targetSize maxSize : UInt32) (ops : List Op), (∀ op ∈ ops, op.configures = false) →
    ∀ pre, pre <+: ops → ((configured () false targetSize maxSize).run discard pre).Limited maxSize := by
  intro h
  have hlimited := h 0 1048576 [.attr tracePointAttr] (by decide) [.attr tracePointAttr] (List.prefix_refl _)
  exact absurd hlimited.max_eq (by decide)

/-! ### What can be configured -/

end PerfUnwind

namespace Buffering

/-- All sizes are within the maximum that is set, also the one to go back to. -/
structure Within (b : Buffering) (maxSize : UInt32) : Prop where
  max_eq : b.maxSize = maxSize
  target_le : b.targetSize ≤ maxSize
  last_le : b.targetSize = 0 → b.lastSize ≤ maxSize

theorem Within.setTarget {b : Buffering} {maxSize size : UInt32} (h : b.Within maxSize) (hsize : size ≤ maxSize) :
    (b.setTarget size).Within maxSize where
  max_eq := by rw [setTarget_maxSize, h.max_eq, max_of_le hsize]
  target_le := hsize
  last_le _ := h.target_le

theorem Within.announce {b : Buffering} {maxSize : UInt32} (h : b.Within maxSize) (tracePoint stored : Bool) :
    (b.announce tracePoint stored).Within maxSize := by
  have hstore : ∀ {b : Buffering}, b.Within maxSize → (b.store stored).Within maxSize := fun h =>
    ⟨h.max_eq, h.target_le, h.last_le⟩
  unfold Buffering.announce announceTracePoint
  split
  · split
    · rename_i ht
      exact hstore (h.setTarget (h.last_le ht))
    · exact hstore h
  · exact hstore h

end Buffering

namespace PerfUnwind

theorem Adapts.within {b b' : Buffering} {maxSize : UInt32} (h : Adapts b b') (hb : b.Within maxSize) :
    b'.Within maxSize := by
  induction h with
  | refl => exact hb
  | @tail b _ _ h ih =>
    cases h with
    | grow size =>
      have hsize : b.grownSize size ≤ maxSize := UInt32.le_trans (b.grownSize_le size) (UInt32.le_of_eq ih.max_eq)
      exact Buffering.Within.setTarget (b := { b with violations := b.violations + 1 })
        ⟨ih.max_eq, ih.target_le, ih.last_le⟩ hsize
    | switch =>
      unfold Buffering.switch
      split
      · exact ih.setTarget UInt32.zero_le
      · exact ih

theorem run_within {maxSize : UInt32} : ∀ (ops : List Op) {u : PerfUnwind σ}, u.buffering.Within maxSize →
    (∀ op ∈ ops, op.configures = false) → (u.run B ops).buffering.Within maxSize
  | [], _, h, _ => h
  | op :: ops, u, h, hops =>
    run_within ops ((apply_adapts u (hops op List.mem_cons_self)).within (h.announce _ _))
      (fun op' hop' => hops op' (List.mem_cons_of_mem op hop'))

/-- The configurations whose maximum is never exceeded: there is a buffer, or the default one is within the maximum. -/
def Ample (targetSize maxSize : UInt32) : Prop :=
  if targetSize = 0 then 33554432 ≤ maxSize else maxSize ≠ 0

theorem configured_buffering (back : σ) (printStats : Bool) (targetSize maxSize : UInt32) :
    (configured back printStats targetSize maxSize).buffering =
      if maxSize < targetSize then ⟨targetSize, maxSize, maxSize, 0, false⟩
      else ⟨33554432, maxSize, targetSize, 0, false⟩ := by
  have htarget := buffering_setTargetEventBufferSize
    ({ back := back, stats := { enabled := printStats } } : PerfUnwind σ) targetSize
  unfold configured
  generalize PerfUnwind.setTargetEventBufferSize _ targetSize = u at htarget ⊢
  obtain ⟨hlast, -, ht, hv, htp⟩ := Buffering.mk.inj htarget
  unfold setMaxEventBufferSize buffering
  rw [ht]
  split
  · exact (Buffering.mk.injEq ..).mpr ⟨rfl, rfl, rfl, hv, htp⟩
  · exact (Buffering.mk.injEq ..).mpr ⟨hlast, rfl, rfl, hv, htp⟩

theorem configured_within_iff (back : σ) (printStats : Bool) (targetSize maxSize : UInt32) :
    (configured back printStats targetSize maxSize).buffering.Within maxSize ↔ Ample targetSize maxSize := by
  rw [configured_buffering]
  unfold Ample
  by_cases hlt : maxSize < targetSize
  · have h0 : targetSize ≠ 0 := fun h => UInt32.not_lt.2 UInt32.zero_le (h ▸ hlt)
    rw [if_pos hlt, if_neg h0]
    constructor
    · intro h hmax
      exact UInt32.not_lt.2 (h.last_le hmax) hlt
    · intro h
      exact ⟨rfl, UInt32.le_refl maxSize, fun hmax => (h hmax).elim⟩
  · rw [if_neg hlt]
    have hle := UInt32.not_lt.1 hlt
    by_cases h0 : targetSize = 0
    · rw [if_pos h0]
      exact ⟨fun h => h.last_le h0, fun h => ⟨rfl, hle, fun _ => h⟩⟩
    · rw [if_neg h0]
      refine iff_of_true ⟨rfl, hle, fun h => (h0 h).elim⟩ ?_
      rintro rfl
      exact h0 (UInt32.le_antisymm hle UInt32.zero_le)

/-- **The configurations whose maximum no run exceeds.** -/
theorem ample_iff (B : Backend σ) (back : σ) (printStats : Bool) (targetSize maxSize : UInt32) :
    (∀ ops : List Op, (∀ op ∈ ops, op.configures = false) →
      ((configured back printStats targetSize maxSize).run B ops).Limited maxSize) ↔ Ample targetSize maxSize := by
  rw [← configured_within_iff back printStats]
  constructor
  · intro h
    have hlimited := configured_limited back printStats targetSize maxSize
    have hannounce : Op.configures (.attr tracePointAttr) = false := rfl
    have hreverts := (apply_limited_iff (B := B) (configured_fits back printStats targetSize maxSize) hlimited
      hannounce).1 (h [.attr tracePointAttr] (by decide))
    exact ⟨hlimited.max_eq, hlimited.target_le, hreverts rfl⟩
  · intro h ops hops
    have hwithin := run_within (B := B) ops h hops
    exact ⟨hwithin.max_eq, hwithin.target_le⟩

end PerfUnwind
end PerfParser
