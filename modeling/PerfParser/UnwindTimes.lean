import PerfParser.BufferSizes
/-!
# UnwindTimes — the times that stats mode reports (`PerfUnwind::Stats`)

In stats mode an unwinder tells the latest time of an event, by how much events were late, and the time between rounds.
It takes the time 0 for none: an event at 0 after others sets the latest time back to 0, and a round that ends at 0 is
no round for the next one.  So what it tells is right where neither happens (`run_tellsTimes_iff`).
-/
namespace PerfParser

open History (Always)

/-! ## What is told -/

/-- What the times depend on: the events that are buffered, and the ends of rounds. -/
inductive Tick
  | event (time : UInt64)
  | round
deriving DecidableEq, Repr, Inhabited

def Op.tick : Op → Option Tick
  | .registerElf m => some (.event m.time)
  | .comm c => some (.event c.time)
  | .lost l => some (.event l.time)
  | .sample s => some (.event s.time)
  | .fork f => some (.event f.time)
  | .exit f => some (.event f.time)
  | .contextSwitch c => some (.event c.time)
  | .finishedRound => some .round
  | .finalize => some .round
  | _ => none

namespace Tick

/-- The latest time of the events, from an earlier one on. -/
def latestFrom : Nat → List Tick → Nat
  | latest, [] => latest
  | latest, event time :: ticks => latestFrom (max latest time.toNat) ticks
  | latest, round :: ticks => latestFrom latest ticks

/-- How late the events come that have a time. -/
def delaysFrom : Nat → List Tick → List Nat
  | _, [] => []
  | latest, event time :: ticks =>
    (if time = 0 then [] else [max latest time.toNat - time.toNat]) ++ delaysFrom (max latest time.toNat) ticks
  | latest, round :: ticks => delaysFrom latest ticks

/-- The latest times at the ends of the rounds. -/
def roundTimesFrom : Nat → List Tick → List Nat
  | _, [] => []
  | latest, event time :: ticks => roundTimesFrom (max latest time.toNat) ticks
  | latest, round :: ticks => latest :: roundTimesFrom latest ticks

def latest (ticks : List Tick) : Nat := latestFrom 0 ticks

def delays (ticks : List Tick) : List Nat := delaysFrom 0 ticks

def roundTimes (ticks : List Tick) : List Nat := roundTimesFrom 0 ticks

end Tick

/-- The differences between the numbers of a list and the ones before them. -/
def differences (l : List Nat) : List Nat := List.zipWith (fun n n' => n' - n) l l.tail

/-- The largest number of a list, 0 if there is none. -/
def largest (l : List Nat) : Nat := l.foldl max 0

/-- The times are those of the events and rounds, and the next round subtracts a time from one that is not before it. -/
structure Stats.TellsTimes (s : Stats) (ticks : List Tick) : Prop where
  maxTime : s.maxTime.toNat = Tick.latest ticks
  maxReorderTime : s.maxReorderTime.toNat = largest (Tick.delays ticks)
  maxTimeBetweenRounds : s.maxTimeBetweenRounds.toNat = largest (differences (Tick.roundTimes ticks))
  lastRoundTime_le : s.lastRoundTime ≤ s.maxTime

/-- The time 0 is nothing but the start: no event has it after one with another, and no round has ended at it when one
ends later. -/
def Tick.StartsAtZero (ticks : List Tick) : Tick → Prop
  | .event time => time = 0 → Tick.latest ticks = 0
  | .round => Tick.latest ticks ≠ 0 → (Tick.roundTimes ticks).getLast? ≠ some 0

/-! ## The times in a run -/

namespace Stats

def tick (s : Stats) : Tick → Stats
  | .event time => s.addEventTime time
  | .round => s.finishedRound

/-- The part of the statistics that is about times. -/
structure Times where
  enabled : Bool
  maxTime : UInt64
  maxReorderTime : UInt64
  maxTimeBetweenRounds : UInt64
  lastRoundTime : UInt64

def times (s : Stats) : Times where
  enabled := s.enabled
  maxTime := s.maxTime
  maxReorderTime := s.maxReorderTime
  maxTimeBetweenRounds := s.maxTimeBetweenRounds
  lastRoundTime := s.lastRoundTime

theorem times_tick {s s' : Stats} (h : s.times = s'.times) (tick : Tick) :
    (s.tick tick).times = (s'.tick tick).times := by
  simp only [times, Times.mk.injEq] at h
  obtain ⟨h₀, h₁, h₂, h₃, h₄⟩ := h
  cases tick with
  | event time =>
    simp only [Stats.tick, addEventTime, h₁]
    split <;> simp [times, h₀, h₂, h₃, h₄]
  | round => simp [Stats.tick, finishedRound, times, h₀, h₁, h₂, h₃, h₄]

theorem enabled_tick (s : Stats) (tick : Tick) : (s.tick tick).enabled = s.enabled := by
  cases tick with
  | event time =>
    rw [Stats.tick, addEventTime]
    split <;> rfl
  | round => rfl

theorem enabled_of_times {s s' : Stats} (h : s.times = s'.times) : s.enabled = s'.enabled := congrArg Times.enabled h

end Stats

namespace PerfUnwind

variable {σ : Type} {B : Backend σ}

theorem stats_setMaxEventBufferSize (u : PerfUnwind σ) (size : UInt32) :
    (u.setMaxEventBufferSize size).stats = u.stats := by
  unfold setMaxEventBufferSize
  split <;> rfl

theorem stats_setTargetEventBufferSize (u : PerfUnwind σ) (size : UInt32) :
    (u.setTargetEventBufferSize size).stats = u.stats := by
  unfold setTargetEventBufferSize
  dsimp only
  split
  · exact stats_setMaxEventBufferSize _ _
  · rfl

theorem times_countViolations (u : PerfUnwind σ) : u.countViolations.stats.times = u.stats.times := by
  unfold countViolations
  split <;> rfl

theorem times_countFlush (u : PerfUnwind σ) (samples mmaps tasks : Nat) :
    (u.countFlush samples mmaps tasks).stats.times = u.stats.times := by
  unfold countFlush
  split <;> rfl

theorem times_startFlush (u : PerfUnwind σ) : (u.startFlush B).unwind.stats.times = u.stats.times := by
  unfold startFlush
  dsimp only
  cases u.sortBuffers.countViolations.violatingMmap <;> exact times_countViolations u.sortBuffers

/-- **A flush leaves the times alone.** -/
theorem times_flushEventBuffer (u : PerfUnwind σ) (desired : UInt32) :
    (u.flushEventBuffer B desired).stats.times = u.stats.times := by
  have hloops : (flushLoops B (u.startFlush B) desired).1.stats.times = u.stats.times := by
    have hsamples := stats_of_settings (settings_sampleLoop (B := B) desired (u.startFlush B)
      (u.startFlush B).unwind.sampleBuffer)
    rw [← times_startFlush (B := B) u, ← hsamples]
    unfold flushLoops
    generalize sampleLoop B desired (u.startFlush B) (u.startFlush B).unwind.sampleBuffer = p
    have htrailing := stats_of_frame (frame_trailingLoop (B := B) desired (p.1.leave desired) p.1.taskEventIt)
    exact (times_countFlush _ _ _ _).trans (congrArg Stats.times htrailing)
  unfold flushEventBuffer
  dsimp only
  split
  · rw [growBuffer, stats_setTargetEventBufferSize]
    exact hloops
  · exact hloops

theorem times_bufferEvent {u : PerfUnwind σ} (h : u.stats.enabled = true) (event : Event) :
    (u.bufferEvent B event).stats.times = (u.stats.tick (.event event.time)).times := by
  have henqueue : (u.enqueue event).stats.times = (u.stats.tick (.event event.time)).times := by
    unfold enqueue append
    cases event <;> simp only [h, if_true] <;> exact Stats.times_tick (by rfl) (.event _)
  unfold bufferEvent
  dsimp only
  split
  · rw [times_flushEventBuffer, henqueue]
  · exact henqueue

theorem times_finishedRound {u : PerfUnwind σ} (h : u.stats.enabled = true) :
    (u.finishedRound B).stats.times = (u.stats.tick .round).times := by
  unfold finishedRound
  simp only [h, if_true]
  split
  · rw [times_flushEventBuffer]
    rfl
  · split
    · rw [stats_setTargetEventBufferSize]
      rfl
    · rfl

/-! Operations that buffer nothing leave the statistics alone. -/

theorem stats_foldl {α : Type} {f : PerfUnwind σ → α → PerfUnwind σ} (hf : ∀ u a, (f u a).stats = u.stats) :
    ∀ (l : List α) (u : PerfUnwind σ), (l.foldl f u).stats = u.stats
  | [], _ => rfl
  | a :: l, u => (stats_foldl hf l (f u a)).trans (hf u a)

theorem stats_addAttributes (u : PerfUnwind σ) (attributes : PerfEventAttributes) (name : QByteArray)
    (ids : List UInt64) : (u.addAttributes B attributes name ids).stats = u.stats := by
  have hrevert : (if attributes.type = PerfEventAttributes.TYPE_TRACEPOINT ∧ u.targetEventBufferSize = 0 then
      u.revertTargetEventBufferSize else u).stats = u.stats := by
    split
    · exact stats_setTargetEventBufferSize u _
    · rfl
  unfold addAttributes
  dsimp only
  split
  · exact hrevert
  · exact hrevert

theorem stats_tracing (u : PerfUnwind σ) (tracingData : PerfTracingData) :
    (u.tracing B tracingData).stats = u.stats :=
  stats_foldl (f := fun (u : PerfUnwind σ) (p : Int32 × EventFormat) => u.call B (.sendEventFormat p.1 p.2))
    (fun _ _ => rfl) _ _

theorem stats_features (u : PerfUnwind σ) (features : PerfFeatures) : (u.features B features).stats = u.stats := by
  have hattrs := stats_foldl (f := fun (u : PerfUnwind σ) (desc : EventDesc) =>
      u.addAttributes B desc.attrs desc.name desc.ids)
    (fun u desc => stats_addAttributes u desc.attrs desc.name desc.ids) features.eventDescs
      (u.tracing B features.tracingData)
  have hversion : ∀ v : PerfUnwind σ, (v.checkVersion features.version).stats = v.stats := by
    intro v
    unfold checkVersion
    split
    · exact stats_setTargetEventBufferSize v 0
    · rfl
  exact (hversion _).trans (hattrs.trans (stats_tracing u features.tracingData))

/-- **What an operation does to the times** is what its tick does. -/
theorem times_apply {u : PerfUnwind σ} (h : u.stats.enabled = true) (op : Op) :
    (u.apply B op).stats.times = (op.tick.elim u.stats u.stats.tick).times := by
  cases op with
  | registerElf mmap => exact times_bufferEvent h _
  | comm comm => exact times_bufferEvent (u := (u.resolveString B comm.comm).1) h _
  | lost lost => exact times_bufferEvent h _
  | sample sample => exact times_bufferEvent h _
  | fork fork => exact times_bufferEvent h _
  | exit exit => exact times_bufferEvent h _
  | contextSwitch contextSwitch => exact times_bufferEvent h _
  | finishedRound => exact times_finishedRound h
  | attr attr => exact congrArg Stats.times (stats_addAttributes u attr.attr attr.attr.name attr.ids)
  | features features => exact congrArg Stats.times (stats_features u features)
  | tracing tracingData => exact congrArg Stats.times (stats_tracing u tracingData)
  | setMaxEventBufferSize size => exact congrArg Stats.times (stats_setMaxEventBufferSize u size)
  | setTargetEventBufferSize size => exact congrArg Stats.times (stats_setTargetEventBufferSize u size)
  | finalize => exact (times_flushEventBuffer _ 0).trans (times_finishedRound h)

/-- **The times of a run** are those of its ticks. -/
theorem times_run {u : PerfUnwind σ} (h : u.stats.enabled = true) (ops : List Op) :
    (u.run B ops).stats.times = ((ops.filterMap Op.tick).foldl Stats.tick u.stats).times := by
  induction ops using List.reverseRecOn with
  | nil => rfl
  | append_singleton ops op ih =>
    have henabled : (u.run B ops).stats.enabled = true := by
      rw [Stats.enabled_of_times ih]
      exact History.foldl_invariant (A := fun _ => True) (fun s t _ hs => (Stats.enabled_tick s t).trans hs) _ _
        (fun _ _ => trivial) h
    rw [run, List.foldl_concat, ← run, times_apply henabled, List.filterMap_append, List.foldl_append]
    cases ht : op.tick with
    | none => simpa [ht] using ih
    | some t => simpa [ht] using Stats.times_tick ih t

end PerfUnwind

/-! ## Ticks one by one -/

namespace Tick

theorem latestFrom_append (ticks ticks' : List Tick) (n : Nat) :
    latestFrom n (ticks ++ ticks') = latestFrom (latestFrom n ticks) ticks' := by
  induction ticks generalizing n with
  | nil => rfl
  | cons t ticks ih => cases t <;> exact ih _

theorem delaysFrom_append (ticks ticks' : List Tick) (n : Nat) :
    delaysFrom n (ticks ++ ticks') = delaysFrom n ticks ++ delaysFrom (latestFrom n ticks) ticks' := by
  induction ticks generalizing n with
  | nil => rfl
  | cons t ticks ih =>
    cases t with
    | event time =>
      rw [List.cons_append, delaysFrom, delaysFrom, ih, List.append_assoc]
      rfl
    | round => exact ih n

theorem roundTimesFrom_append (ticks ticks' : List Tick) (n : Nat) :
    roundTimesFrom n (ticks ++ ticks') = roundTimesFrom n ticks ++ roundTimesFrom (latestFrom n ticks) ticks' := by
  induction ticks generalizing n with
  | nil => rfl
  | cons t ticks ih =>
    cases t with
    | event time => exact ih _
    | round => exact congrArg (n :: ·) (ih n)

theorem latest_event (ticks : List Tick) (time : UInt64) :
    latest (ticks ++ [event time]) = max (latest ticks) time.toNat := latestFrom_append ..

theorem latest_round (ticks : List Tick) : latest (ticks ++ [round]) = latest ticks := latestFrom_append ..

theorem delays_event (ticks : List Tick) (time : UInt64) : delays (ticks ++ [event time]) =
    delays ticks ++ if time = 0 then [] else [max (latest ticks) time.toNat - time.toNat] := by
  rw [delays, delaysFrom_append, delaysFrom, delaysFrom, List.append_nil]
  rfl

theorem delays_round (ticks : List Tick) : delays (ticks ++ [round]) = delays ticks := by
  rw [delays, delaysFrom_append, delaysFrom, delaysFrom, List.append_nil]
  rfl

theorem roundTimes_event (ticks : List Tick) (time : UInt64) :
    roundTimes (ticks ++ [event time]) = roundTimes ticks := by
  rw [roundTimes, roundTimesFrom_append, roundTimesFrom, roundTimesFrom, List.append_nil]
  rfl

theorem roundTimes_round (ticks : List Tick) : roundTimes (ticks ++ [round]) = roundTimes ticks ++ [latest ticks] := by
  rw [roundTimes, roundTimesFrom_append, roundTimesFrom, roundTimesFrom]
  rfl

/-- The last round ended at a time that events had before. -/
theorem roundTimes_le_latest {ticks : List Tick} : ∀ n ∈ roundTimes ticks, n ≤ latest ticks := by
  induction ticks using List.reverseRecOn with
  | nil => exact fun n hn => absurd hn List.not_mem_nil
  | append_singleton ticks t ih =>
    intro n hn
    cases t with
    | event time =>
      rw [roundTimes_event] at hn
      rw [latest_event]
      exact Nat.le_trans (ih n hn) (Nat.le_max_left _ _)
    | round =>
      rw [roundTimes_round] at hn
      rw [latest_round]
      rcases List.mem_append.1 hn with hn | hn
      · exact ih n hn
      · exact Nat.le_of_eq (List.mem_singleton.1 hn)

theorem roundTimes_le_last {ticks : List Tick} : ∀ n ∈ roundTimes ticks, n ≤ (roundTimes ticks).getLast?.getD 0 := by
  induction ticks using List.reverseRecOn with
  | nil => exact fun n hn => absurd hn List.not_mem_nil
  | append_singleton ticks t ih =>
    cases t with
    | event time =>
      rw [roundTimes_event]
      exact ih
    | round =>
      have hle : ∀ n ∈ roundTimes (ticks ++ [round]), n ≤ latest (ticks ++ [round]) := roundTimes_le_latest
      rw [latest_round, roundTimes_round] at hle
      rw [roundTimes_round, List.getLast?_concat]
      exact hle

end Tick

theorem largest_append (l l' : List Nat) : largest (l ++ l') = max (largest l) (largest l') := by
  induction l' using List.reverseRecOn with
  | nil => simp [largest]
  | append_singleton l' n ih =>
    rw [← List.append_assoc, largest, List.foldl_concat, ← largest, ih, Nat.max_assoc, largest, largest, largest,
      List.foldl_concat]

theorem differences_concat (l : List Nat) (n : Nat) :
    differences (l ++ [n]) = differences l ++ l.getLast?.toList.map (n - ·) := by
  cases l with
  | nil => rfl
  | cons a l =>
    induction l generalizing a with
    | nil => rfl
    | cons b l ih =>
      have h := ih b
      simp only [differences, List.cons_append, List.tail_cons, List.zipWith_cons_cons] at h ⊢
      rw [h]
      simp

theorem largest_differences_le {m : Nat} {l : List Nat} (h : ∀ n ∈ l, n ≤ m) : largest (differences l) ≤ m := by
  induction l using List.reverseRecOn with
  | nil => exact Nat.zero_le m
  | append_singleton l n ih =>
    have hl := ih fun k hk => h k (List.mem_append_left _ hk)
    have hn := h n (List.mem_append_right _ List.mem_cons_self)
    rw [differences_concat, largest_append]
    refine Nat.max_le.2 ⟨hl, ?_⟩
    cases l.getLast? with
    | none => exact Nat.zero_le m
    | some k =>
      show max 0 (n - k) ≤ m
      omega

/-! ## Where the times are right -/

theorem toNat_max (a b : UInt64) : (max a b).toNat = max a.toNat b.toNat := by
  show (if a ≤ b then b else a).toNat = _
  split
  · rename_i h
    rw [UInt64.le_iff_toNat_le] at h
    omega
  · rename_i h
    rw [UInt64.le_iff_toNat_le] at h
    omega

namespace Stats

variable {s : Stats} {ticks : List Tick}

/-- The times are told, and the last round ended at the latest time of then. -/
structure Settled (s : Stats) (ticks : List Tick) : Prop extends s.TellsTimes ticks where
  lastRoundTime : s.lastRoundTime.toNat = (Tick.roundTimes ticks).getLast?.getD 0

theorem settled_create : ({ enabled := true } : Stats).Settled [] where
  maxTime := rfl
  maxReorderTime := rfl
  maxTimeBetweenRounds := rfl
  lastRoundTime_le := UInt64.le_refl 0
  lastRoundTime := rfl

/-- What an event adds to the delays. -/
theorem Settled.largest_delays_event (h : s.Settled ticks) (time : UInt64) :
    largest (Tick.delays (ticks ++ [.event time])) =
      if time = 0 then s.maxReorderTime.toNat
      else max s.maxReorderTime.toNat (max s.maxTime.toNat time.toNat - time.toNat) := by
  rw [Tick.delays_event, largest_append, ← h.maxReorderTime, ← h.maxTime]
  split <;> simp [largest]

theorem Settled.event {s' : Stats} (h : s.Settled ticks) {time : UInt64}
    (hmaxTime : s'.maxTime.toNat = max s.maxTime.toNat time.toNat)
    (hdelays : s'.maxReorderTime.toNat = largest (Tick.delays (ticks ++ [.event time])))
    (hgap : s'.maxTimeBetweenRounds = s.maxTimeBetweenRounds) (hround : s'.lastRoundTime = s.lastRoundTime) :
    s'.Settled (ticks ++ [.event time]) := by
  refine ⟨⟨?_, hdelays, ?_, ?_⟩, ?_⟩
  · rw [Tick.latest_event, hmaxTime, h.maxTime]
  · rw [Tick.roundTimes_event, hgap]
    exact h.maxTimeBetweenRounds
  · have hle := UInt64.le_iff_toNat_le.1 h.lastRoundTime_le
    rw [UInt64.le_iff_toNat_le, hround, hmaxTime]
    omega
  · rw [Tick.roundTimes_event, hround]
    exact h.lastRoundTime

/-- **An event is settled** unless it sets the latest time back to 0. -/
theorem settled_event (h : s.Settled ticks) (time : UInt64) :
    (s.addEventTime time).Settled (ticks ++ [.event time]) ↔ (time = 0 → Tick.latest ticks = 0) := by
  have hlatest := h.maxTime
  constructor
  · rintro h' rfl
    have hmax := h'.maxTime
    rw [addEventTime, if_neg (fun hne => hne.1 rfl), Tick.latest_event, UInt64.toNat_zero] at hmax
    omega
  · intro hzero
    have hdelays := h.largest_delays_event time
    unfold addEventTime
    split
    · rename_i hlate
      have hlt := UInt64.lt_iff_toNat_lt.1 hlate.2
      rw [if_neg hlate.1] at hdelays
      refine h.event ?_ ?_ rfl rfl
      · show s.maxTime.toNat = _
        omega
      · rw [hdelays, toNat_max, UInt64.toNat_sub_of_le _ _ (UInt64.le_of_lt hlate.2)]
        omega
    · rename_i hnew
      rw [not_and_or, not_ne_iff, UInt64.not_lt, UInt64.le_iff_toNat_le] at hnew
      have htime : s.maxTime.toNat ≤ time.toNat := by
        rcases hnew with rfl | hnew
        · rw [hlatest, hzero rfl]
          exact Nat.zero_le _
        · exact hnew
      refine h.event ?_ ?_ rfl rfl
      · show time.toNat = _
        omega
      · rw [hdelays]
        split
        · rfl
        · show s.maxReorderTime.toNat = _
          omega

/-- What a round compares: with the end of the one before it, unless that is 0. -/
theorem maxTimeBetweenRounds_finishedRound (hle : s.lastRoundTime ≤ s.maxTime) :
    s.finishedRound.maxTimeBetweenRounds.toNat =
      if s.lastRoundTime.toNat = 0 then s.maxTimeBetweenRounds.toNat
      else max s.maxTimeBetweenRounds.toNat (s.maxTime.toNat - s.lastRoundTime.toNat) := by
  show UInt64.toNat (if s.lastRoundTime > 0 then _ else _) = _
  by_cases hz : s.lastRoundTime.toNat = 0
  · rw [if_neg, if_pos hz]
    rw [gt_iff_lt, UInt64.lt_iff_toNat_lt, hz]
    exact Nat.lt_irrefl 0
  · rw [if_pos, if_neg hz, toNat_max, UInt64.toNat_sub_of_le _ _ hle]
    rw [gt_iff_lt, UInt64.lt_iff_toNat_lt]
    exact Nat.pos_of_ne_zero hz

theorem Settled.finishedRound_iff (h : s.Settled ticks) : s.finishedRound.Settled (ticks ++ [.round]) ↔
    s.finishedRound.maxTimeBetweenRounds.toNat = largest (differences (Tick.roundTimes (ticks ++ [.round]))) := by
  refine ⟨fun h' => h'.maxTimeBetweenRounds, fun h' => ⟨⟨?_, ?_, h', UInt64.le_refl _⟩, ?_⟩⟩
  · rw [Tick.latest_round]
    exact h.maxTime
  · rw [Tick.delays_round]
    exact h.maxReorderTime
  · rw [Tick.roundTimes_round, List.getLast?_concat, Option.getD_some]
    exact h.maxTime

/-- **A round is settled** unless the one before it ended at 0. -/
theorem settled_round (h : s.Settled ticks) : s.finishedRound.Settled (ticks ++ [.round]) ↔
    (Tick.latest ticks ≠ 0 → (Tick.roundTimes ticks).getLast? ≠ some 0) := by
  have hlatest := h.maxTime
  have hlast := h.lastRoundTime
  have hle : s.lastRoundTime.toNat ≤ s.maxTime.toNat := UInt64.le_iff_toNat_le.1 h.lastRoundTime_le
  have hgap : largest (differences (Tick.roundTimes (ticks ++ [.round]))) = max s.maxTimeBetweenRounds.toNat
      (largest ((Tick.roundTimes ticks).getLast?.toList.map (Tick.latest ticks - ·))) := by
    rw [Tick.roundTimes_round, differences_concat, largest_append, ← h.maxTimeBetweenRounds]
  rw [h.finishedRound_iff, hgap, maxTimeBetweenRounds_finishedRound h.lastRoundTime_le]
  cases hl : (Tick.roundTimes ticks).getLast? with
  | none =>
    rw [hl, Option.getD_none] at hlast
    rw [if_pos hlast]
    simp [largest]
  | some n =>
    have hold : s.maxTimeBetweenRounds.toNat ≤ n := by
      rw [h.maxTimeBetweenRounds]
      exact largest_differences_le fun k hk => by simpa [hl] using Tick.roundTimes_le_last k hk
    rw [hl, Option.getD_some] at hlast
    simp only [Option.toList_some, List.map_cons, List.map_nil, largest, List.foldl_cons, List.foldl_nil, hlast,
      Option.some.injEq, ne_eq]
    split <;> omega

/-- **A tick is settled** where the time 0 is nothing but the start. -/
theorem settled_tick (h : s.Settled ticks) (t : Tick) :
    (s.tick t).Settled (ticks ++ [t]) ↔ Tick.StartsAtZero ticks t := by
  cases t with
  | event time => exact settled_event h time
  | round => exact settled_round h

variable (hs : s.Settled [])

include hs in
theorem settled_of_tellsTimes (h : ∀ pre, pre <+: ticks → (pre.foldl Stats.tick s).TellsTimes pre) :
    (ticks.foldl Stats.tick s).Settled ticks := by
  induction ticks using List.reverseRecOn with
  | nil => exact hs
  | append_singleton ticks t ih =>
    rw [History.forall_prefix_snoc] at h
    have hticks := h.1 ticks (List.prefix_refl ticks)
    refine ⟨h.2, ?_⟩
    rw [List.foldl_concat]
    cases t with
    | event time =>
      have hlast : (Stats.tick (ticks.foldl Stats.tick s) (.event time)).lastRoundTime =
          (ticks.foldl Stats.tick s).lastRoundTime := by
        rw [Stats.tick, addEventTime]
        split <;> rfl
      rw [hlast, Tick.roundTimes_event]
      exact (ih h.1).lastRoundTime
    | round =>
      rw [Tick.roundTimes_round, List.getLast?_concat, Option.getD_some]
      exact hticks.maxTime

include hs in
/-- **The times are right at every point** exactly where the time 0 is nothing but the start. -/
theorem tellsTimes_iff (ticks : List Tick) : (∀ pre, pre <+: ticks → (pre.foldl Stats.tick s).TellsTimes pre) ↔
    Always Tick.StartsAtZero ticks := by
  induction ticks using List.reverseRecOn with
  | nil =>
    refine iff_of_true (fun pre hpre => ?_) History.always_nil
    rw [List.prefix_nil.1 hpre]
    exact hs.toTellsTimes
  | append_singleton ticks t ih =>
    rw [History.forall_prefix_snoc, History.always_snoc, ← ih]
    refine and_congr_right fun h => ?_
    have hsettled := settled_of_tellsTimes hs h
    rw [← settled_tick hsettled t, List.foldl_concat]
    refine ⟨fun h' => ?_, fun h' => h'.toTellsTimes⟩
    have hall := settled_of_tellsTimes hs (History.forall_prefix_snoc.2 ⟨h, by rwa [List.foldl_concat]⟩)
    rwa [List.foldl_concat] at hall

theorem TellsTimes.congr {s' : Stats} (h : s.TellsTimes ticks) (hs : s.times = s'.times) : s'.TellsTimes ticks := by
  simp only [times, Times.mk.injEq] at hs
  obtain ⟨-, h₁, h₂, h₃, h₄⟩ := hs
  refine ⟨?_, ?_, ?_, ?_⟩
  · rw [← h₁, h.maxTime]
  · rw [← h₂, h.maxReorderTime]
  · rw [← h₃, h.maxTimeBetweenRounds]
  · rw [← h₄, ← h₁]
    exact h.lastRoundTime_le

end Stats

namespace PerfUnwind

variable {σ : Type}

theorem stats_configured (back : σ) (printStats : Bool) (targetSize maxSize : UInt32) :
    (configured back printStats targetSize maxSize).stats = { enabled := printStats } :=
  (stats_setMaxEventBufferSize _ maxSize).trans (stats_setTargetEventBufferSize _ targetSize)

/-- **The times of a run in stats mode** are right at every point exactly where the time 0 is nothing but the start. -/
theorem run_tellsTimes_iff (B : Backend σ) (back : σ) (targetSize maxSize : UInt32) (ops : List Op) :
    (∀ ran, ran <+: ops →
      ((configured back true targetSize maxSize).run B ran).stats.TellsTimes (ran.filterMap Op.tick)) ↔
    Always Tick.StartsAtZero (ops.filterMap Op.tick) := by
  rw [← Stats.tellsTimes_iff Stats.settled_create]
  have hstart := stats_configured back true targetSize maxSize
  have htimes := times_run (B := B) (congrArg Stats.enabled hstart)
  rw [hstart] at htimes
  constructor
  · intro h ticks hticks
    obtain ⟨ran, hran, rfl⟩ := List.prefix_filterMap_iff.1 hticks
    exact (h ran hran).congr (htimes ran)
  · intro h ran hran
    exact (h _ (hran.filterMap Op.tick)).congr (htimes ran).symm

/-- **After an event at 0** the latest time is 0, and the next round is before the last one. -/
theorem not_tellsTimes :
    ((configured () true 0 0).run discard [.sample (sampleAt 5), .sample (sampleAt 0)]).stats.maxTime = 0 ∧
      ((configured () true 0 0).run discard [.sample (sampleAt 5), .finishedRound, .sample (sampleAt 0),
        .finishedRound]).stats.maxTimeBetweenRounds = 0 - 5 ∧
      ¬∀ ops : List Op, ((configured () true 0 0).run discard ops).stats.TellsTimes (ops.filterMap Op.tick) := by
  refine ⟨by decide, by decide, fun h => ?_⟩
  exact absurd (h [.sample (sampleAt 5), .sample (sampleAt 0)]).maxTime (by decide)

end PerfUnwind

end PerfParser
