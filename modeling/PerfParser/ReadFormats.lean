import PerfParser.SampleLayout
/-!
# ReadFormats — the values of counters in a sample, with and without their ids (`perfdata.cpp`)

The kernel writes the id of a counter with `FORMAT_ID` only.  The decoder reads one for each counter, so without
`FORMAT_ID` every counter moves what is behind the section by eight bytes (`reads_readReadFormats_iff`).
-/
namespace PerfParser

open PerfEventAttributes Reader QDataStream

variable (bigEndian : Bool)

namespace PerfRecordSample

/-! ## What the decoder takes -/

/-- What a sample has between the first number of the section and its counters. -/
def timesLength (format : UInt64) : Nat :=
  (if format &&& FORMAT_TOTAL_TIME_ENABLED != 0 then 8 else 0)
    + (if format &&& FORMAT_TOTAL_TIME_RUNNING != 0 then 8 else 0)

/-- What the decoder takes behind the value of a counter. -/
def counterIdLength (withLostFormat : Bool) : Nat := 8 + (if withLostFormat then 8 else 0)

theorem takes_readCounterId (withLostFormat : Bool) (format : ReadFormat) :
    Takes (readCounterId bigEndian withLostFormat format) (counterIdLength withLostFormat) :=
  (takes_u64 bigEndian).bind fun _ => Takes.when ((takes_u64 bigEndian).map _)

theorem takes_readCounter (withLostFormat : Bool) :
    Takes (readCounter bigEndian withLostFormat) (8 + counterIdLength withLostFormat) :=
  (takes_u64 bigEndian).bind fun _ => takes_readCounterId bigEndian withLostFormat _

theorem takes_readTimeEnabled (r : PerfRecordSample) : Takes (readTimeEnabled bigEndian r) 8 :=
  (takes_u64 bigEndian).map _

theorem takes_readTimeRunning (r : PerfRecordSample) : Takes (readTimeRunning bigEndian r) 8 :=
  (takes_u64 bigEndian).map _

theorem run_readTimeEnabled_readFormat (present : Bool) (r : PerfRecordSample) (s : QByteArray) :
    ((Reader.when present (readTimeEnabled bigEndian) r).run s).1.readFormat = r.readFormat := by
  cases present <;> rfl

/-- What the section takes depends on its first number, and on the format whether that is a count. -/
theorem run_readReadFormats_snd (r : PerfRecordSample) (s : QByteArray) :
    ((readReadFormats bigEndian r).run s).2 = s.drop (8 + (timesLength r.readFormat +
      if r.readFormat &&& FORMAT_GROUP != 0 then
        ((u64 bigEndian).run s).1.toNat * (8 + counterIdLength (r.readFormat &&& FORMAT_LOST != 0))
      else counterIdLength (r.readFormat &&& FORMAT_LOST != 0))) := by
  refine (takes_u64 bigEndian).bind_run_snd ?_
  rw [timesLength, Nat.add_assoc]
  refine (Takes.when (takes_readTimeEnabled bigEndian _)).bind_run fun t => ?_
  rw [run_readTimeEnabled_readFormat]
  refine (Takes.when (takes_readTimeRunning bigEndian _)).bind fun _ => ?_
  cases r.readFormat &&& FORMAT_GROUP != 0 with
  | false => exact (takes_readCounterId bigEndian _ _).map _
  | true => exact ((takes_readCounter bigEndian _).times _).map _

/-! ## What the kernel writes -/

theorem length_counterId (format : UInt64) (c : ReadFormat) : (Layout.counterId bigEndian format c).length =
    (if format &&& FORMAT_ID != 0 then 8 else 0) + (if format &&& FORMAT_LOST != 0 then 8 else 0) := by
  rw [Layout.counterId, List.length_append, apply_ite List.length, apply_ite List.length, Layout.length_u64,
    Layout.length_u64, List.length_nil]

/-- Without `FORMAT_ID` a counter is eight bytes shorter than what the decoder takes. -/
theorem length_counterId_add {format : UInt64} (hid : format &&& FORMAT_ID = 0) (c : ReadFormat) :
    (Layout.counterId bigEndian format c).length + 8 = counterIdLength (format &&& FORMAT_LOST != 0) := by
  rw [length_counterId, hid, bne_self_eq_false, if_neg Bool.false_ne_true, counterIdLength, Nat.zero_add, Nat.add_comm]

theorem length_counters_add {format : UInt64} (hid : format &&& FORMAT_ID = 0) : ∀ counters : List ReadFormat,
    (counters.flatMap (Layout.counter bigEndian format)).length + counters.length * 8 =
      counters.length * (8 + counterIdLength (format &&& FORMAT_LOST != 0))
  | [] => by simp
  | c :: counters => by
    have hrest := length_counters_add hid counters
    have hfirst := length_counterId_add bigEndian hid c
    rw [List.flatMap_cons, List.length_append, Layout.counter, List.length_append, Layout.length_u64, List.length_cons,
      Nat.succ_mul, Nat.succ_mul]
    omega

/-- **Without `FORMAT_ID` the decoder takes eight bytes for each counter of what is behind the section.** -/
theorem run_readReadFormats_values {r : PerfRecordSample} (hid : r.readFormat &&& FORMAT_ID = 0)
    (timeEnabled timeRunning : UInt64) {counters : List ReadFormat} (hlen : counters.length < 2 ^ 64)
    (hsingle : r.readFormat &&& FORMAT_GROUP = 0 → counters.length = 1) (rest : QByteArray) :
    ((readReadFormats bigEndian r).run
      (Layout.values bigEndian r.readFormat timeEnabled timeRunning counters ++ rest)).2 =
        rest.drop (counters.length * 8) := by
  have htimes : ((if r.readFormat &&& FORMAT_TOTAL_TIME_ENABLED != 0 then Layout.u64 bigEndian timeEnabled else [])
      ++ (if r.readFormat &&& FORMAT_TOTAL_TIME_RUNNING != 0 then Layout.u64 bigEndian timeRunning else [])).length =
        timesLength r.readFormat := by
    rw [timesLength, List.length_append, apply_ite List.length, apply_ite List.length, Layout.length_u64,
      Layout.length_u64, List.length_nil]
  rw [run_readReadFormats_snd, List.drop_append]
  unfold Layout.values
  dsimp only
  by_cases hgroup : r.readFormat &&& FORMAT_GROUP = 0
  · have hno : ¬(r.readFormat &&& FORMAT_GROUP != 0) = true := by simp [hgroup]
    have hcounter := length_counterId_add bigEndian hid (counters.headD {})
    rw [if_neg hno, if_neg hno, List.drop_eq_nil_of_le, List.nil_append, List.length_append, List.length_append, htimes,
      Layout.length_u64, hsingle hgroup]
    · congr 1
      omega
    · rw [List.length_append, List.length_append, htimes, Layout.length_u64]
      omega
  · have hyes : (r.readFormat &&& FORMAT_GROUP != 0) = true := bne_iff_ne.2 hgroup
    have hcounters := length_counters_add bigEndian hid counters
    rw [if_pos hyes, if_pos hyes, List.append_assoc, Layout.reads_u64 bigEndian, UInt64.toNat_ofNat_of_lt' hlen,
      List.drop_eq_nil_of_le, List.nil_append, List.length_append, List.length_append, htimes, Layout.length_u64]
    · congr 1
      omega
    · rw [List.length_append, List.length_append, htimes, Layout.length_u64]
      omega

/-! ## The sections that are read as they are written -/

/-- A counter as the format has it written. -/
def written (format : UInt64) (c : ReadFormat) : ReadFormat :=
  { c with
    id := if format &&& FORMAT_ID != 0 then c.id else 0
    lost := if format &&& FORMAT_LOST != 0 then c.lost else 0 }

/-- The sample with the values of the counters. -/
def withValues (r : PerfRecordSample) (timeEnabled timeRunning : UInt64) (counters : List ReadFormat) :
    PerfRecordSample :=
  { r with
    timeEnabled := if r.readFormat &&& FORMAT_TOTAL_TIME_ENABLED != 0 then timeEnabled else r.timeEnabled
    timeRunning := if r.readFormat &&& FORMAT_TOTAL_TIME_RUNNING != 0 then timeRunning else r.timeRunning
    readFormats := r.readFormats ++ counters.map (written r.readFormat) }

theorem written_of_id {format : UInt64} (hid : format &&& FORMAT_ID ≠ 0) (counters : List ReadFormat) :
    counters.map (written format) =
      counters.map fun c => { c with lost := if format &&& FORMAT_LOST != 0 then c.lost else 0 } := by
  refine List.map_congr_left fun c _ => ?_
  rw [written, if_pos (bne_iff_ne.2 hid)]

theorem reads_readReadFormats_nil {r : PerfRecordSample} (hgroup : r.readFormat &&& FORMAT_GROUP ≠ 0)
    (timeEnabled timeRunning : UInt64) :
    Reads (readReadFormats bigEndian r) (Layout.values bigEndian r.readFormat timeEnabled timeRunning [])
      (r.withValues timeEnabled timeRunning []) := by
  have hyes : (r.readFormat &&& FORMAT_GROUP != 0) = true := bne_iff_ne.2 hgroup
  unfold Layout.values
  dsimp only
  rw [if_pos hyes]
  refine (Layout.reads_u64 bigEndian 0).bind <| Reads.of_eq
    ((reads_readTimeEnabled bigEndian r (r.readFormat &&& FORMAT_TOTAL_TIME_ENABLED != 0) timeEnabled).bind <|
    (reads_readTimeRunning bigEndian _ (r.readFormat &&& FORMAT_TOTAL_TIME_RUNNING != 0) timeRunning).bind ?_)
    (List.append_assoc _ _ _) rfl
  rw [hyes]
  exact (Reads.pure []).map _

/-- **The values of counters are read as they are written, and what is behind them from where it starts, if and only if
the counters have their ids or there are none.** -/
theorem reads_readReadFormats_iff (r : PerfRecordSample) (timeEnabled timeRunning : UInt64) (counters : List ReadFormat)
    (hlen : counters.length < 2 ^ 64) (hsingle : r.readFormat &&& FORMAT_GROUP = 0 → counters.length = 1) :
    Reads (readReadFormats bigEndian r) (Layout.values bigEndian r.readFormat timeEnabled timeRunning counters)
        (r.withValues timeEnabled timeRunning counters) ↔
      r.readFormat &&& FORMAT_ID ≠ 0 ∨ r.readFormat &&& FORMAT_GROUP ≠ 0 ∧ counters = [] := by
  constructor
  · intro h
    by_contra hcond
    obtain ⟨hid, hcounters⟩ := not_or.1 hcond
    -- eight bytes for each counter, behind the section, would have to be none
    have hleft := run_readReadFormats_values bigEndian (not_not.1 hid) timeEnabled timeRunning hlen hsingle
      (List.replicate (counters.length * 8) 0)
    rw [h, List.drop_eq_nil_of_le List.length_replicate.le, List.replicate_eq_nil_iff] at hleft
    have hnone : counters = [] := List.eq_nil_of_length_eq_zero (by omega)
    refine hcounters ⟨fun hgroup => ?_, hnone⟩
    have hone := hsingle hgroup
    rw [hnone] at hone
    cases hone
  · rintro (hid | ⟨hgroup, rfl⟩)
    · refine Reads.of_eq (reads_readReadFormats bigEndian r true rfl timeEnabled timeRunning counters
        (fun _ => hid) (fun _ => hlen) (fun _ => hsingle)) rfl ?_
      rw [withValues, written_of_id hid]
      rfl
    · exact reads_readReadFormats_nil bigEndian hgroup timeEnabled timeRunning

/-- A group of two counters with their ids. -/
theorem reads_group : Reads (readReadFormats true { readFormat := FORMAT_GROUP ||| FORMAT_ID ||| FORMAT_TOTAL_TIME_ENABLED })
    (Layout.values true (FORMAT_GROUP ||| FORMAT_ID ||| FORMAT_TOTAL_TIME_ENABLED) 5 0
      [{ value := 7, id := 1 }, { value := 9, id := 2 }])
    { readFormat := FORMAT_GROUP ||| FORMAT_ID ||| FORMAT_TOTAL_TIME_ENABLED, timeEnabled := 5,
      readFormats := [{ value := 7, id := 1 }, { value := 9, id := 2 }] } :=
  (reads_readReadFormats_iff true { readFormat := FORMAT_GROUP ||| FORMAT_ID ||| FORMAT_TOTAL_TIME_ENABLED } 5 0
    [{ value := 7, id := 1 }, { value := 9, id := 2 }] (by decide) (fun h => absurd h (by decide))).2 (.inl (by decide))

/-- Without ids, as `perf` writes them by default, one is read from what is behind the section. -/
theorem not_reads_readReadFormats :
    ¬∀ (bigEndian : Bool) (r : PerfRecordSample) (timeEnabled timeRunning : UInt64) (counters : List ReadFormat),
      counters.length < 2 ^ 64 → (r.readFormat &&& FORMAT_GROUP = 0 → counters.length = 1) →
      Reads (readReadFormats bigEndian r) (Layout.values bigEndian r.readFormat timeEnabled timeRunning counters)
        (r.withValues timeEnabled timeRunning counters) := by
  intro h
  have hreads := h false {} 0 0 [{ value := 7 }] (by decide) (fun _ => rfl) (List.replicate 8 1)
  exact absurd (congrArg (fun p => p.2) hreads) (by decide)

end PerfRecordSample

end PerfParser
