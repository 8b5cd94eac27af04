import PerfParser.PerfData
/-!
# ReadEvents — events that arrive in pieces

An event is read once all of it is there.  Until then `processEvents` gives up with `Rerun`, having read no more than
the header or the size of the tracing data, and keeps that in the state of the parser: giving up and trying again with
more bytes ends where the whole event would have.  With that, how a stream is cut into chunks makes no difference.
-/
namespace PerfParser

open QDataStream Reader

variable {δ : Type}

/-- More bytes behind those that have arrived. -/
def Reading.append (r : Reading δ) (bytes : QByteArray) : Reading δ := ⟨r.data, r.unread ++ bytes⟩

@[simp] theorem Reading.append_data (r : Reading δ) (bytes : QByteArray) : (r.append bytes).data = r.data := rfl

@[simp] theorem Reading.append_unread (r : Reading δ) (bytes : QByteArray) :
    (r.append bytes).unread = r.unread ++ bytes := rfl

@[simp] theorem Reading.append_nil (r : Reading δ) : r.append [] = r := by simp [Reading.append]

/-- What has not arrived yet does not matter to a part of an event that has all it takes. -/
theorem Reading.apply_append {r : Reading δ} {f : PerfData δ → Reader UInt8 (PerfData δ)} {n : Nat}
    (h : Takes (f r.data) n) (hn : n ≤ r.unread.length) (more : QByteArray) :
    (r.append more).apply f = (r.apply f).append more := by
  unfold Reading.apply
  rw [Reading.append_data, Reading.append_unread, (h.run_append hn more).1]
  rfl

theorem Reading.length_apply {r : Reading δ} {f : PerfData δ → Reader UInt8 (PerfData δ)} {n : Nat}
    (h : Takes (f r.data) n) (hn : n ≤ r.unread.length) : (r.apply f).unread.length + n = r.unread.length :=
  (h.run_append hn []).2

namespace PerfData

variable (E : Env δ) {depth : Nat} {nested : Reading δ → ReadStatus × Reading δ} {r r₁ r₂ : Reading δ}
  {more : QByteArray} {st : ReadStatus}

/-! ## Parts of fixed width -/

theorem takes_readHeader (d : PerfData δ) : Takes (d.readHeader E) 8 :=
  Takes.map _ <| (takes_u32 E.bigEndian).bind (m := 4) (n := 4) fun _ =>
    ((Takes.number E.bigEndian 2).map UInt16.ofNat).bind (m := 2) (n := 2) fun _ =>
      ((Takes.number E.bigEndian 2).map UInt16.ofNat).map _

theorem takes_readTracingSize (d : PerfData δ) :
    Takes (d.readTracingSize E) (if d.tracingData.size = 0 then 4 else 0) := by
  unfold readTracingSize
  by_cases h : d.tracingData.size = 0
  · rw [if_pos h, if_pos h]
    exact (takes_u32 E.bigEndian).map _
  · rw [if_neg h, if_neg h]
    exact .pure d

theorem toNat_toInt32_le (n : UInt32) : n.toInt32.toInt.toNat ≤ n.toNat := by
  have h : n.toInt32.toInt = n.toBitVec.toInt := rfl
  have hlt := n.toBitVec.isLt
  rw [h, BitVec.toInt_eq_toNat_cond]
  have hn : n.toBitVec.toNat = n.toNat := rfl
  split <;> omega

/-- The blob of tracing data takes its size, or less where the size is out of the range of an `int`. -/
theorem takes_readTracingData (t : PerfTracingData) :
    ∃ n ≤ t.size.toNat, (n = t.size.toNat ∨ intMax ≤ n) ∧ Takes (readTracingData E t) n := by
  unfold readTracingData
  by_cases h : t.size.toNat > intMax
  · rw [if_pos h]
    refine ⟨intMax + (t.size - UInt32.ofNat intMax).toInt32.toInt.toNat, ?_, .inr (Nat.le_add_right _ _),
      (takes_skipRawData intMax).bind fun _ => ((Takes.take _).map _).map _⟩
    have hle : UInt32.ofNat intMax ≤ t.size := UInt32.le_iff_toNat_le.2 (Nat.le_of_lt h)
    have hsub := UInt32.toNat_sub_of_le _ _ hle
    have hmax : (UInt32.ofNat intMax).toNat = intMax := rfl
    have hint := toNat_toInt32_le (t.size - UInt32.ofNat intMax)
    omega
  · rw [if_neg h]
    exact ⟨_, Nat.le_refl _, .inl rfl, (takes_readRawData _).map _⟩

/-! ## Tracing data -/

theorem handleTracingBlob_append (h : handleTracingBlob E r = (st, r₁)) (hst : st ≠ .Rerun) (more : QByteArray) :
    handleTracingBlob E (r.append more) = (st, r₁.append more) := by
  unfold handleTracingBlob at h ⊢
  by_cases hshort : r.unread.length < r.data.tracingData.size.toNat
  · rw [if_pos hshort] at h
    exact absurd (Prod.mk.inj h).1.symm hst
  · obtain ⟨n, hn, -, htakes⟩ := takes_readTracingData E r.data.tracingData
    rw [if_neg hshort] at h
    rw [if_neg (by simp; omega), Reading.apply_append (f := readTracing E) (htakes.map _) (by omega)]
    obtain ⟨rfl, rfl⟩ := Prod.mk.inj h
    rfl

/-- The content of an event that is the size of the tracing data behind it. -/
def isTracing (r : Reading δ) : Prop :=
  r.data.eventHeader.eventType = .headerTracingData ∧ r.data.eventHeader.contentSize = 4

instance (r : Reading δ) : Decidable (isTracing r) := inferInstanceAs (Decidable (_ ∧ _))

theorem handleEvent_of_isTracing (h : isTracing r) :
    handleEvent E nested r = handleTracingBlob E (r.apply (readTracingSize E)) := by
  unfold handleEvent
  rw [h.1]
  exact if_pos h.2

theorem handleEvent_of_compressed (htype : r.data.eventHeader.eventType = .compressed) :
    handleEvent E nested r = handleCompressed E nested r := by
  unfold handleEvent
  rw [htype]

theorem handleEvent_of_plain (htr : ¬isTracing r) (htype : r.data.eventHeader.eventType ≠ .compressed) :
    handleEvent E nested r = (.SignalFinished, r.apply (readEvent E)) := by
  unfold handleEvent
  split
  · rename_i h
    exact if_neg fun h4 => htr ⟨h, h4⟩
  · exact absurd ‹_› htype
  · rfl

theorem apply_readTracingSize_of_ne (h : r.data.tracingData.size ≠ 0) : r.apply (readTracingSize E) = r := by
  unfold Reading.apply readTracingSize
  rw [if_neg h]
  rfl

theorem apply_readTracingSize_eventHeader : (r.apply (readTracingSize E)).data.eventHeader = r.data.eventHeader := by
  unfold Reading.apply readTracingSize
  split <;> rfl

/-! ## The content of an event -/

theorem handleCompressed_append (hlen : r.data.eventHeader.contentSize ≤ r.unread.length) (more : QByteArray) :
    handleCompressed E nested (r.append more)
      = ((handleCompressed E nested r).1, (handleCompressed E nested r).2.append more) := by
  obtain ⟨hrun, -⟩ := (takes_readRawData r.data.eventHeader.contentSize).run_append hlen more
  unfold handleCompressed
  simp only [Reading.append_data, Reading.append_unread, hrun]
  by_cases hzstd : r.data.zstdDstream.isNone = true ∧ ¬E.hasCompressed = true
  · rw [if_pos hzstd, if_pos hzstd]
  · rw [if_neg hzstd, if_neg hzstd]
    generalize decompress E _ _ _ _ = result
    cases result with
    | none => rfl
    | some p => rfl

theorem drain_ne_rerun (size : Nat) : ∀ (fuel : Nat) (r : Reading δ), (drain nested size fuel r).1 ≠ .Rerun
  | 0, _ => by simp [drain]
  | fuel + 1, r => by
    unfold drain
    cases hn : nested r with
    | mk st r' =>
      cases st with
      | SignalFinished => exact drain_ne_rerun size fuel r'
      | SignalError => simp
      | Rerun => simp

theorem handleCompressed_ne_rerun : (handleCompressed E nested r).1 ≠ .Rerun := by
  unfold handleCompressed
  simp only
  split
  · simp
  · generalize decompress E _ _ _ _ = result
    cases result with
    | none => simp
    | some p => exact drain_ne_rerun _ _ _

/-- The event `r` is about to read takes exactly the content that its header announces and leaves `unread`; tracing data
announce a size of their own, of at least four bytes. -/
def TakesContent (r : Reading δ) (unread : QByteArray) : Prop :=
  if isTracing r then r.data.tracingData.size = 0 → 4 ≤ (r.apply (readTracingSize E)).data.tracingData.size.toNat
  else unread.length + r.data.eventHeader.contentSize = r.unread.length

instance (unread : QByteArray) : Decidable (TakesContent E r unread) := inferInstanceAs (Decidable (ite _ _ _))

theorem handleEvent_append (hlen : r.data.eventHeader.contentSize ≤ r.unread.length)
    (h : handleEvent E nested r = (st, r₁)) (hst : st ≠ .Rerun)
    (htakes : ∀ r₂, handleEvent E nested (r.append more) = (.SignalFinished, r₂) →
      TakesContent E (r.append more) r₂.unread) :
    handleEvent E nested (r.append more) = (st, r₁.append more) := by
  have hdata : (r.append more).data = r.data := rfl
  by_cases htr : isTracing r
  · have hsize : (if r.data.tracingData.size = 0 then 4 else 0) ≤ r.unread.length := by
      rw [htr.2] at hlen
      split <;> omega
    rw [handleEvent_of_isTracing E htr] at h
    rw [handleEvent_of_isTracing E (show isTracing (r.append more) from htr),
      Reading.apply_append (takes_readTracingSize E r.data) hsize]
    exact handleTracingBlob_append E h hst more
  · have htr' : ¬isTracing (r.append more) := htr
    by_cases htype : r.data.eventHeader.eventType = .compressed
    · unfold handleEvent at h ⊢
      rw [hdata, htype]
      rw [htype] at h
      simp only at h ⊢
      rw [handleCompressed_append E hlen, h]
    · have hmore : handleEvent E nested (r.append more) = _ := handleEvent_of_plain E htr' htype
      have hexact := htakes _ hmore
      unfold TakesContent at hexact
      rw [if_neg htr'] at hexact
      rw [handleEvent_of_plain E htr htype] at h
      obtain ⟨rfl, rfl⟩ := Prod.mk.inj h
      rw [hmore]
      unfold Reading.apply
      rw [Reading.append_data, Reading.append_unread, (r.data.readEvent E).run_append_of_length hlen hexact]
      rfl

theorem handleEvent_rerun (h : handleEvent E nested r = (.Rerun, r₁)) :
    isTracing r ∧ r₁ = r.apply (readTracingSize E) := by
  by_cases htr : isTracing r
  · rw [handleEvent_of_isTracing E htr] at h
    unfold handleTracingBlob at h
    split at h
    · exact ⟨htr, (Prod.mk.inj h).2.symm⟩
    · cases (Prod.mk.inj h).1
  · by_cases htype : r.data.eventHeader.eventType = .compressed
    · unfold handleEvent at h
      rw [htype] at h
      exact absurd (congrArg Prod.fst h) (handleCompressed_ne_rerun E)
    · rw [handleEvent_of_plain E htr htype] at h
      cases (Prod.mk.inj h).1

/-! ## A whole event -/

theorem processContent_of_short (h : r.unread.length < r.data.eventHeader.contentSize) (sequential : Bool) :
    processContent E nested sequential r = (.Rerun, r) := if_pos h

theorem processContent_of_finished (hlen : r.data.eventHeader.contentSize ≤ r.unread.length)
    (h : handleEvent E nested r = (.SignalFinished, r₁)) (sequential : Bool) :
    processContent E nested sequential r
      = (.SignalFinished, finishEvent sequential r.data.eventHeader.contentSize r.unread r₁) := by
  unfold processContent
  simp only
  rw [if_neg (by omega), h]

theorem processContent_of_failed (hlen : r.data.eventHeader.contentSize ≤ r.unread.length)
    (h : handleEvent E nested r = (st, r₁)) (hst : st ≠ .SignalFinished) (sequential : Bool) :
    processContent E nested sequential r = (st, r₁) := by
  unfold processContent
  simp only
  rw [if_neg (by omega), h]
  cases st with
  | SignalFinished => exact absurd rfl hst
  | _ => rfl

theorem processContent_append (h : processContent E nested true r = (st, r₁)) (hst : st ≠ .Rerun)
    (htakes : ∀ r₂, processContent E nested true (r.append more) = (.SignalFinished, r₂) →
      TakesContent E (r.append more) r₂.unread) :
    processContent E nested true (r.append more) = (st, r₁.append more) := by
  by_cases hlen : r.unread.length < r.data.eventHeader.contentSize
  · rw [processContent_of_short E hlen] at h
    exact absurd (Prod.mk.inj h).1.symm hst
  · have hlen : r.data.eventHeader.contentSize ≤ r.unread.length := by omega
    have hlen' : (r.append more).data.eventHeader.contentSize ≤ (r.append more).unread.length := by
      simp only [Reading.append_data, Reading.append_unread, List.length_append]
      omega
    cases hhandle : handleEvent E nested r with
    | mk st' r' =>
      have happend : st' ≠ .Rerun → handleEvent E nested (r.append more) = (st', r'.append more) := fun hst' =>
        handleEvent_append E hlen hhandle hst' fun r₂ h₂ =>
          htakes (finishEvent true _ _ r₂) (processContent_of_finished E hlen' h₂ true)
      cases st' with
      | SignalFinished =>
        rw [processContent_of_finished E hlen hhandle] at h
        rw [processContent_of_finished E hlen' (happend (by decide))]
        obtain ⟨rfl, rfl⟩ := Prod.mk.inj h
        rfl
      | _ =>
        rw [processContent_of_failed E hlen hhandle (by decide)] at h
        obtain ⟨rfl, rfl⟩ := Prod.mk.inj h
        exact processContent_of_failed E hlen' (happend hst) (by decide) true

theorem processContent_of_eq {r' : Reading δ} (hlen : r.data.eventHeader.contentSize ≤ r.unread.length)
    (hlen' : r'.data.eventHeader.contentSize ≤ r'.unread.length)
    (h : handleEvent E nested r = handleEvent E nested r') :
    processContent E nested true r = processContent E nested true r' := by
  cases hhandle : handleEvent E nested r' with
  | mk st r₁ =>
    cases st with
    | SignalFinished =>
      rw [processContent_of_finished E hlen (h.trans hhandle), processContent_of_finished E hlen' hhandle]
      rfl
    | _ =>
      rw [processContent_of_failed E hlen (h.trans hhandle) (by decide),
        processContent_of_failed E hlen' hhandle (by decide)]

theorem apply_readTracingSize_append (htr : isTracing r) (hlen : r.data.eventHeader.contentSize ≤ r.unread.length)
    (hsize : r.data.tracingData.size = 0) (more : QByteArray) :
    (r.append more).apply (readTracingSize E) = (r.apply (readTracingSize E)).append more := by
  have htakes := takes_readTracingSize E r.data
  rw [if_pos hsize] at htakes
  exact Reading.apply_append htakes (by rw [htr.2] at hlen; exact hlen) more

/-- Tracing data of which only the size was there.  That the size is at least four is what keeps the check of the content
from asking for more than is needed. -/
theorem tracing_resume (htr : isTracing r) (hlen : r.data.eventHeader.contentSize ≤ r.unread.length)
    (hsize : r.data.tracingData.size = 0) (more : QByteArray)
    (hfour : 4 ≤ ((r.append more).apply (readTracingSize E)).data.tracingData.size.toNat) :
    processContent E nested true ((r.apply (readTracingSize E)).append more)
      = processContent E nested true (r.append more) := by
  have happend := apply_readTracingSize_append E htr hlen hsize more
  have hhead : (r.apply (readTracingSize E)).data.eventHeader = r.data.eventHeader :=
    apply_readTracingSize_eventHeader E
  rw [happend, Reading.append_data] at hfour
  generalize hr' : r.apply (readTracingSize E) = r' at happend hhead hfour
  have hlen' : (r.append more).data.eventHeader.contentSize ≤ (r.append more).unread.length := by
    simp only [Reading.append_data, Reading.append_unread, List.length_append]
    omega
  have hfull : handleEvent E nested (r.append more) = handleTracingBlob E (r'.append more) := by
    rw [handleEvent_of_isTracing E (show isTracing (r.append more) from htr), happend]
  have htr' : isTracing (r'.append more) := by
    unfold isTracing
    rw [Reading.append_data, hhead]
    exact htr
  by_cases hfew : (r'.append more).unread.length < 4
  · rw [processContent_of_short E (by rw [htr'.2]; exact hfew),
      processContent_of_failed E hlen' (hfull.trans (if_pos (Nat.lt_of_lt_of_le hfew hfour))) (by decide)]
  · refine processContent_of_eq E (by rw [htr'.2]; omega) hlen' ?_
    have hne : (r'.append more).data.tracingData.size ≠ 0 := fun h0 => by
      rw [Reading.append_data] at h0
      rw [h0] at hfour
      exact absurd hfour (by decide)
    rw [hfull, handleEvent_of_isTracing E htr', apply_readTracingSize_of_ne E hne]

/-- The size of the tracing data stays in the parser when not all of them are there. -/
theorem processContent_resume (h : processContent E nested true r = (.Rerun, r₁)) (more : QByteArray)
    (htracing : isTracing r → r.data.eventHeader.contentSize ≤ r.unread.length → r.data.tracingData.size = 0 →
      4 ≤ ((r.append more).apply (readTracingSize E)).data.tracingData.size.toNat) :
    processContent E nested true (r₁.append more) = processContent E nested true (r.append more)
      ∧ r₁.data.eventHeader = r.data.eventHeader
      ∧ (r₁ = r ∨ r₁.data.tracingData.size ≠ 0 ∧ isTracing r₁) := by
  by_cases hlen : r.unread.length < r.data.eventHeader.contentSize
  · rw [processContent_of_short E hlen] at h
    obtain ⟨-, rfl⟩ := Prod.mk.inj h
    exact ⟨rfl, rfl, .inl rfl⟩
  · have hlen : r.data.eventHeader.contentSize ≤ r.unread.length := by omega
    cases hhandle : handleEvent E nested r with
    | mk st' r' =>
      cases st' with
      | SignalFinished =>
        rw [processContent_of_finished E hlen hhandle] at h
        cases (Prod.mk.inj h).1
      | SignalError =>
        rw [processContent_of_failed E hlen hhandle (by decide)] at h
        cases (Prod.mk.inj h).1
      | Rerun =>
        rw [processContent_of_failed E hlen hhandle (by decide)] at h
        obtain ⟨-, rfl⟩ := Prod.mk.inj h
        obtain ⟨htr, rfl⟩ := handleEvent_rerun E hhandle
        have hhead := apply_readTracingSize_eventHeader E (r := r)
        by_cases hsize : r.data.tracingData.size = 0
        · have hfour := htracing htr hlen hsize
          refine ⟨tracing_resume E htr hlen hsize more hfour, hhead, .inr ⟨fun h0 => ?_,
            by unfold isTracing; rwa [hhead]⟩⟩
          rw [apply_readTracingSize_append E htr hlen hsize, Reading.append_data, h0] at hfour
          exact absurd hfour (by decide)
        · rw [apply_readTracingSize_of_ne E hsize]
          exact ⟨rfl, rfl, .inl rfl⟩

/-- An event with its header read. -/
def started (r : Reading δ) : Reading δ := if r.data.eventHeader.size = 0 then r.apply (readHeader E) else r

theorem processEvent_of_short (h0 : r.data.eventHeader.size = 0) (hlen : r.unread.length < 8) (sequential : Bool) :
    processEvent E nested sequential r = (.Rerun, r) := by
  unfold processEvent
  rw [if_pos h0, if_pos hlen]

theorem processEvent_of_bad (h0 : r.data.eventHeader.size = 0) (hlen : 8 ≤ r.unread.length)
    (hbad : (started E r).data.eventHeader.size < PerfEventHeader.fixedLength) (sequential : Bool) :
    processEvent E nested sequential r = (.SignalError, started E r) := by
  unfold processEvent
  unfold started at hbad ⊢
  rw [if_pos h0] at hbad ⊢
  simp only
  rw [if_pos h0, if_neg (by omega), if_pos hbad]

theorem processEvent_of_started (h : r.data.eventHeader.size = 0 →
      8 ≤ r.unread.length ∧ ¬(started E r).data.eventHeader.size < PerfEventHeader.fixedLength) (sequential : Bool) :
    processEvent E nested sequential r = processContent E nested sequential (started E r) := by
  unfold processEvent
  by_cases h0 : r.data.eventHeader.size = 0
  · obtain ⟨hlen, hgood⟩ := h h0
    unfold started at hgood ⊢
    rw [if_pos h0] at hgood ⊢
    simp only
    rw [if_pos h0, if_neg (by omega), if_neg hgood]
  · unfold started
    rw [if_neg h0, if_neg h0]

theorem started_append (h : r.data.eventHeader.size = 0 → 8 ≤ r.unread.length) (more : QByteArray) :
    started E (r.append more) = (started E r).append more := by
  unfold started
  by_cases h0 : r.data.eventHeader.size = 0
  · rw [if_pos h0, Reading.append_data, if_pos h0, Reading.apply_append (takes_readHeader E r.data) (h h0)]
  · rw [if_neg h0, Reading.append_data, if_neg h0]

/-- An event that was read was not read differently for the bytes behind it. -/
theorem processEvent_append (h : processEvent E nested true r = (st, r₁)) (hst : st ≠ .Rerun)
    (htakes : ∀ r₂, processEvent E nested true (r.append more) = (.SignalFinished, r₂) →
      TakesContent E (started E (r.append more)) r₂.unread) :
    processEvent E nested true (r.append more) = (st, r₁.append more) := by
  have hlen' : 8 ≤ r.unread.length → 8 ≤ (r.append more).unread.length := fun h => by
    rw [Reading.append_unread, List.length_append]
    omega
  by_cases hshort : r.data.eventHeader.size = 0 ∧ r.unread.length < 8
  · rw [processEvent_of_short E hshort.1 hshort.2] at h
    exact absurd (Prod.mk.inj h).1.symm hst
  · have hlen : r.data.eventHeader.size = 0 → 8 ≤ r.unread.length := fun h0 => by
      by_contra hlt
      exact hshort ⟨h0, by omega⟩
    have hstarted := started_append E hlen more
    by_cases hbad : r.data.eventHeader.size = 0 ∧ (started E r).data.eventHeader.size < PerfEventHeader.fixedLength
    · rw [processEvent_of_bad E hbad.1 (hlen hbad.1) hbad.2] at h
      obtain ⟨rfl, rfl⟩ := Prod.mk.inj h
      rw [processEvent_of_bad E (r := r.append more) hbad.1 (hlen' (hlen hbad.1)) (by rw [hstarted]; exact hbad.2),
        hstarted]
    · have hgood : r.data.eventHeader.size = 0 →
          8 ≤ r.unread.length ∧ ¬(started E r).data.eventHeader.size < PerfEventHeader.fixedLength :=
        fun h0 => ⟨hlen h0, fun hlt => hbad ⟨h0, hlt⟩⟩
      have hgood' : (r.append more).data.eventHeader.size = 0 → 8 ≤ (r.append more).unread.length
          ∧ ¬(started E (r.append more)).data.eventHeader.size < PerfEventHeader.fixedLength :=
        fun h0 => ⟨hlen' (hlen h0), by rw [hstarted]; exact (hgood h0).2⟩
      rw [processEvent_of_started E hgood] at h
      rw [processEvent_of_started E hgood', hstarted] at htakes ⊢
      exact processContent_append E h hst htakes

/-- An event that was given up and is tried again ends where it would have with all bytes there at first. -/
theorem processEvent_resume (h : processEvent E nested true r = (.Rerun, r₁)) (more : QByteArray)
    (htracing : isTracing (started E (r.append more)) →
      (started E (r.append more)).data.eventHeader.contentSize ≤ (started E (r.append more)).unread.length →
      (started E (r.append more)).data.tracingData.size = 0 →
      4 ≤ ((started E (r.append more)).apply (readTracingSize E)).data.tracingData.size.toNat) :
    processEvent E nested true (r₁.append more) = processEvent E nested true (r.append more)
      ∧ (started E (r₁.append more) = started E (r.append more) ∨
        (started E (r₁.append more)).data.tracingData.size ≠ 0 ∧ isTracing (started E (r₁.append more))) := by
  by_cases hshort : r.data.eventHeader.size = 0 ∧ r.unread.length < 8
  · rw [processEvent_of_short E hshort.1 hshort.2] at h
    rw [(Prod.mk.inj h).2]
    exact ⟨rfl, .inl rfl⟩
  · have hlen : r.data.eventHeader.size = 0 → 8 ≤ r.unread.length := fun h0 => by
      by_contra hlt
      exact hshort ⟨h0, by omega⟩
    have hstarted := started_append E hlen more
    have hgood : r.data.eventHeader.size = 0 →
        8 ≤ r.unread.length ∧ ¬(started E r).data.eventHeader.size < PerfEventHeader.fixedLength := by
      refine fun h0 => ⟨hlen h0, fun hlt => ?_⟩
      rw [processEvent_of_bad E h0 (hlen h0) hlt] at h
      cases (Prod.mk.inj h).1
    have hne : (started E r).data.eventHeader.size ≠ 0 := by
      by_cases h0 : r.data.eventHeader.size = 0
      · exact fun hs => (hgood h0).2 (by rw [hs]; decide)
      · unfold started
        rwa [if_neg h0]
    have hgood' : (r.append more).data.eventHeader.size = 0 → 8 ≤ (r.append more).unread.length
        ∧ ¬(started E (r.append more)).data.eventHeader.size < PerfEventHeader.fixedLength := by
      refine fun h0 => ⟨?_, by rw [hstarted]; exact (hgood h0).2⟩
      have := hlen h0
      rw [Reading.append_unread, List.length_append]
      omega
    rw [processEvent_of_started E hgood] at h
    rw [hstarted] at htracing
    obtain ⟨hresume, hhead, hkept⟩ := processContent_resume E h more fun htr hle =>
      htracing htr (Nat.le_trans hle (by simp))
    have hstart₁ : started E (r₁.append more) = r₁.append more :=
      if_neg (by rw [Reading.append_data, hhead]; exact hne)
    constructor
    · rw [processEvent_of_started E hgood', hstarted, ← hresume, processEvent_of_started E, hstart₁]
      intro h0
      rw [Reading.append_data, hhead] at h0
      exact absurd h0 hne
    · rw [hstart₁, hstarted]
      exact hkept.imp_left (congrArg fun r => Reading.append r more)

/-- What is tried again takes its content if it would have done so at first. -/
theorem TakesContent.resume {r' : Reading δ} {unread : QByteArray}
    (h : r' = r ∨ r'.data.tracingData.size ≠ 0 ∧ isTracing r') (htakes : TakesContent E r unread) :
    TakesContent E r' unread := by
  rcases h with rfl | ⟨hsize, htr⟩
  · exact htakes
  · unfold TakesContent
    rw [if_pos htr]
    exact fun h0 => absurd h0 hsize

theorem not_isTracing_of_error (h : processEvent E nested true r = (.SignalError, r₁)) : ¬isTracing (started E r) := by
  intro htr
  by_cases hshort : r.data.eventHeader.size = 0 ∧ r.unread.length < 8
  · rw [processEvent_of_short E hshort.1 hshort.2] at h
    cases (Prod.mk.inj h).1
  · by_cases hbad : (started E r).data.eventHeader.size < PerfEventHeader.fixedLength
    · have h4 := htr.2
      unfold PerfEventHeader.contentSize at h4
      generalize (started E r).data.eventHeader.size = size at h4 hbad
      have hlt : size.toNat < 8 := UInt16.lt_iff_toNat_lt.1 hbad
      have hsub : (2 ^ 16 - 8 + size.toNat) % 2 ^ 16 = 4 := by rwa [UInt16.toNat_sub] at h4
      omega
    · rw [processEvent_of_started E fun h0 => ⟨by by_contra hlt; exact hshort ⟨h0, by omega⟩, hbad⟩] at h
      by_cases hlen : (started E r).unread.length < (started E r).data.eventHeader.contentSize
      · rw [processContent_of_short E hlen] at h
        cases (Prod.mk.inj h).1
      · have hhandle : handleEvent E nested (started E r) = _ := handleEvent_of_isTracing E htr
        unfold handleTracingBlob at hhandle
        split at hhandle
        · rw [processContent_of_failed E (by omega) hhandle (by decide)] at h
          cases (Prod.mk.inj h).1
        · rw [processContent_of_finished E (by omega) hhandle] at h
          cases (Prod.mk.inj h).1

/-! ## The loop -/

theorem length_apply_le (f : PerfData δ → Reader UInt8 (PerfData δ)) : (r.apply f).unread.length ≤ r.unread.length :=
  (f r.data).length_run_le r.unread

theorem length_handleEvent_le : (handleEvent E nested r).2.unread.length ≤ r.unread.length := by
  unfold handleEvent
  split
  · unfold handleTracingData handleTracingBlob
    split
    · split
      · exact length_apply_le _
      · exact Nat.le_trans (length_apply_le _) (length_apply_le _)
    · exact length_apply_le _
  · have hraw := (readRawData r.data.eventHeader.contentSize).length_run_le r.unread
    unfold handleCompressed
    simp only
    split
    · exact Nat.le_refl _
    · generalize decompress E _ _ _ _ = result
      cases result with
      | none => exact hraw
      | some p => exact hraw
  · exact length_apply_le _

theorem processContent_finished {sequential : Bool} (h : processContent E nested sequential r = (.SignalFinished, r₁)) :
    r₁.data.eventHeader.size = 0 ∧ r₁.unread.length ≤ r.unread.length := by
  by_cases hlen : r.unread.length < r.data.eventHeader.contentSize
  · rw [processContent_of_short E hlen] at h
    cases (Prod.mk.inj h).1
  · have hlen : r.data.eventHeader.contentSize ≤ r.unread.length := by omega
    have hle : (handleEvent E nested r).2.unread.length ≤ r.unread.length := length_handleEvent_le E
    cases hhandle : handleEvent E nested r with
    | mk st' r' =>
      rw [hhandle] at hle
      cases st' with
      | SignalFinished =>
        rw [processContent_of_finished E hlen hhandle] at h
        obtain ⟨-, rfl⟩ := Prod.mk.inj h
        refine ⟨rfl, ?_⟩
        unfold finishEvent
        simp only at hle ⊢
        split
        · exact hle
        · rw [List.length_drop]
          omega
      | _ =>
        rw [processContent_of_failed E hlen hhandle (by decide)] at h
        cases (Prod.mk.inj h).1

/-- Every event but one whose header was read before takes at least its header. -/
theorem processEvent_finished {sequential : Bool} (h : processEvent E nested sequential r = (.SignalFinished, r₁)) :
    r₁.data.eventHeader.size = 0
      ∧ r₁.unread.length + (if r.data.eventHeader.size = 0 then 8 else 0) ≤ r.unread.length := by
  unfold processEvent at h
  by_cases h0 : r.data.eventHeader.size = 0
  · rw [if_pos h0] at h ⊢
    by_cases hlen : r.unread.length < 8
    · rw [if_pos hlen] at h
      cases (Prod.mk.inj h).1
    · rw [if_neg hlen] at h
      have hhead := Reading.length_apply (takes_readHeader E r.data) (Nat.le_of_not_lt hlen)
      simp only at h
      split at h
      · cases (Prod.mk.inj h).1
      · obtain ⟨hsize, hle⟩ := processContent_finished E h
        exact ⟨hsize, by omega⟩
  · rw [if_neg h0] at h ⊢
    exact processContent_finished E h

theorem exists_nested (depth : Nat) : ∃ nested, processEvents E depth = processEvent E nested := by
  cases depth <;> exact ⟨_, rfl⟩

/-- The number of iterations that the loop can take. -/
def iterations (r : Reading δ) : Nat := r.unread.length + if r.data.eventHeader.size = 0 then 0 else 1

theorem readEvents_fuel (sequential : Bool) : ∀ (n m : Nat) (r : Reading δ), iterations r ≤ n → iterations r ≤ m →
    readEvents E depth sequential n r = readEvents E depth sequential m r
  | 0, 0, _, _, _ => rfl
  | 0, m + 1, r, hn, _ => by
    have hnil : r.unread = [] := List.length_eq_zero_iff.1 (by unfold iterations at hn; omega)
    rw [readEvents, readEvents, if_pos hnil]
  | n + 1, 0, r, _, hm => by
    have hnil : r.unread = [] := List.length_eq_zero_iff.1 (by unfold iterations at hm; omega)
    rw [readEvents, readEvents, if_pos hnil]
  | n + 1, m + 1, r, hn, hm => by
    rw [readEvents, readEvents]
    by_cases hnil : r.unread = []
    · rw [if_pos hnil, if_pos hnil]
    · rw [if_neg hnil, if_neg hnil]
      obtain ⟨nested, hnested⟩ := exists_nested E depth
      cases hp : processEvents E depth sequential r with
      | mk st r' =>
        cases st with
        | SignalFinished =>
          rw [hnested] at hp
          obtain ⟨hsize, hle⟩ := processEvent_finished E hp
          have hpos := List.length_pos_of_ne_nil hnil
          have hless : iterations r' + 1 ≤ iterations r := by
            unfold iterations
            rw [if_pos hsize]
            split at hle <;> rename_i h0
            · rw [if_pos h0]; omega
            · rw [if_neg h0]; omega
          exact readEvents_fuel sequential n m r' (by omega) (by omega)
        | _ => rfl

/-- The loop with all the iterations it can take. -/
def readAll (depth : Nat) (sequential : Bool) (r : Reading δ) : ReadStatus × Reading δ :=
  readEvents E depth sequential (r.unread.length + 1) r

theorem readAll_nil {sequential : Bool} (h : r.unread = []) :
    readAll E depth sequential r = (.SignalFinished, r) := if_pos h

theorem readAll_finished {sequential : Bool} (hne : r.unread ≠ [])
    (h : processEvents E depth sequential r = (.SignalFinished, r₁)) :
    readAll E depth sequential r = readAll E depth sequential r₁ := by
  have hfuel : readEvents E depth sequential (r.unread.length + 1) r
      = readEvents E depth sequential (r.unread.length + 2) r := by
    refine readEvents_fuel E sequential _ _ r ?_ ?_ <;> unfold iterations <;> split <;> omega
  obtain ⟨nested, hnested⟩ := exists_nested E depth
  unfold readAll
  rw [hfuel, readEvents, if_neg hne, h]
  rw [hnested] at h
  obtain ⟨hsize, hle⟩ := processEvent_finished E h
  refine readEvents_fuel E sequential _ _ r₁ ?_ ?_ <;> unfold iterations <;> rw [if_pos hsize] <;> omega

theorem readAll_failed {sequential : Bool} (hne : r.unread ≠ [])
    (h : processEvents E depth sequential r = (st, r₁)) (hst : st ≠ .SignalFinished) :
    readAll E depth sequential r = (st, r₁) := by
  unfold readAll
  rw [readEvents, if_neg hne, h]
  cases st with
  | SignalFinished => exact absurd rfl hst
  | _ => rfl

/-! ## Chunks -/

/-- A stream of events that each take exactly their content, up to one that the parser reports an error for. -/
inductive Framed (depth : Nat) : Reading δ → Prop
  | done {r : Reading δ} : r.unread = [] → Framed depth r
  | event {r r' : Reading δ} : r.unread ≠ [] → processEvents E depth true r = (.SignalFinished, r') →
      TakesContent E (started E r) r'.unread → Framed depth r' → Framed depth r
  | error {r r' : Reading δ} : r.unread ≠ [] → processEvents E depth true r = (.SignalError, r') → Framed depth r

/-- What becomes of the event that is read when all bytes are there, if only a part of them has arrived. -/
theorem processEvents_part {r r' x' : Reading δ} {more : QByteArray} {st full : ReadStatus}
    (hp : processEvents E depth true r = (st, r')) (hfull : processEvents E depth true (r.append more) = (full, x'))
    (hne : full ≠ .Rerun) (htakes : full = .SignalFinished → TakesContent E (started E (r.append more)) x'.unread)
    (htracing : isTracing (started E (r.append more)) → (started E (r.append more)).data.tracingData.size = 0 →
      4 ≤ ((started E (r.append more)).apply (readTracingSize E)).data.tracingData.size.toNat) :
    (st = full ∧ x' = r'.append more) ∨
      (st = .Rerun ∧ (r'.append more).unread ≠ [] ∧ processEvents E depth true (r'.append more) = (full, x') ∧
        ∀ unread, TakesContent E (started E (r.append more)) unread →
          TakesContent E (started E (r'.append more)) unread) := by
  obtain ⟨nested, hnested⟩ := exists_nested E depth
  rw [hnested] at hp hfull ⊢
  by_cases hst : st = .Rerun
  · subst hst
    have hmore : more ≠ [] := by
      rintro rfl
      rw [Reading.append_nil, hp] at hfull
      exact hne (Prod.mk.inj hfull).1.symm
    obtain ⟨hresume, hkept⟩ := processEvent_resume E hp more fun htr _ => htracing htr
    exact .inr ⟨rfl, by simp [hmore], hresume.trans hfull, fun _ => TakesContent.resume E hkept⟩
  · have happend := processEvent_append E hp hst fun r₂ h₂ => by
      obtain ⟨rfl, rfl⟩ := Prod.mk.inj (hfull.symm.trans h₂)
      exact htakes rfl
    obtain ⟨rfl, rfl⟩ := Prod.mk.inj (hfull.symm.trans happend)
    exact .inl ⟨rfl, rfl⟩

theorem not_isTracing_of_signalError {r r' : Reading δ} (h : processEvents E depth true r = (.SignalError, r')) :
    ¬isTracing (started E r) := by
  obtain ⟨nested, hnested⟩ := exists_nested E depth
  rw [hnested] at h
  exact not_isTracing_of_error E h

theorem readAll_append_nil {r x : Reading δ} {more : QByteArray} (h : Framed E depth x) (hx : x = r.append more)
    (hr : r.unread = []) {st : ReadStatus} {r₁ : Reading δ} (hread : readAll E depth true r = (st, r₁)) :
    (st = .SignalError → readAll E depth true x = (.SignalError, r₁.append more))
      ∧ (st ≠ .SignalError → Framed E depth (r₁.append more)
        ∧ readAll E depth true x = readAll E depth true (r₁.append more)) := by
  rw [readAll_nil E hr] at hread
  obtain ⟨rfl, rfl⟩ := Prod.mk.inj hread
  exact ⟨fun he => (by cases he), fun _ => ⟨hx ▸ h, by rw [hx]⟩⟩

theorem readAll_append {r x : Reading δ} {more : QByteArray} (h : Framed E depth x) (hx : x = r.append more)
    {st : ReadStatus}
    {r₁ : Reading δ} (hread : readAll E depth true r = (st, r₁)) :
    (st = .SignalError → readAll E depth true x = (.SignalError, r₁.append more))
      ∧ (st ≠ .SignalError → Framed E depth (r₁.append more)
        ∧ readAll E depth true x = readAll E depth true (r₁.append more)) := by
  induction h generalizing r with
  | done hnil =>
    refine readAll_append_nil E (.done hnil) hx ?_ hread
    rw [hx] at hnil
    exact (List.append_eq_nil_iff.1 hnil).1
  | @event x x' hne hfull htakes hrest ih =>
    by_cases hr : r.unread = []
    · exact readAll_append_nil E (.event hne hfull htakes hrest) hx hr hread
    · subst hx
      have htracing : isTracing (started E (r.append more)) →
          (started E (r.append more)).data.tracingData.size = 0 →
          4 ≤ ((started E (r.append more)).apply (readTracingSize E)).data.tracingData.size.toNat := fun htr h0 => by
        unfold TakesContent at htakes
        rw [if_pos htr] at htakes
        exact htakes h0
      cases hp : processEvents E depth true r with
      | mk st' r' =>
        rcases processEvents_part E hp hfull (by decide) (fun _ => htakes) htracing with
          ⟨rfl, hx'⟩ | ⟨rfl, hne', hresume, hkept⟩
        · rw [readAll_finished E hr hp] at hread
          rw [readAll_finished E hne hfull]
          exact ih hx' hread
        · rw [readAll_failed E hr hp (by decide)] at hread
          obtain ⟨rfl, rfl⟩ := Prod.mk.inj hread
          refine ⟨fun he => (by cases he), fun _ => ⟨.event hne' hresume (hkept _ htakes) hrest, ?_⟩⟩
          rw [readAll_finished E hne hfull, readAll_finished E hne' hresume]
  | @error x x' hne hfull =>
    by_cases hr : r.unread = []
    · exact readAll_append_nil E (.error hne hfull) hx hr hread
    · subst hx
      cases hp : processEvents E depth true r with
      | mk st' r' =>
        rcases processEvents_part E hp hfull (by decide) (fun he => by cases he)
          (fun htr => absurd htr (not_isTracing_of_signalError E hfull)) with ⟨rfl, rfl⟩ | ⟨rfl, hne', hresume, -⟩
        · rw [readAll_failed E hr hp (by decide)] at hread
          obtain ⟨rfl, rfl⟩ := Prod.mk.inj hread
          exact ⟨fun _ => readAll_failed E hne hfull (by decide), fun he => absurd rfl he⟩
        · rw [readAll_failed E hr hp (by decide)] at hread
          obtain ⟨rfl, rfl⟩ := Prod.mk.inj hread
          refine ⟨fun he => (by cases he), fun _ => ⟨.error hne' hresume, ?_⟩⟩
          rw [readAll_failed E hne hfull (by decide), readAll_failed E hne' hresume (by decide)]

theorem read_eq : read E depth true true r
    = (if (readAll E depth true r).1 = .SignalError then some .error else none, (readAll E depth true r).2) := by
  unfold read doRead readAll
  generalize readEvents E depth true (r.unread.length + 1) r = result
  obtain ⟨st, r'⟩ := result
  by_cases hst : st = .SignalError
  · simp [hst]
  · simp [hst]

theorem feed_none (chunk : QByteArray) : feed E depth (none, r) chunk = read E depth true true (r.append chunk) := rfl

theorem foldl_feed_some (s : Signal) : ∀ (chunks : List QByteArray) (r : Reading δ),
    chunks.foldl (feed E depth) (some s, r) = (some s, r.append chunks.flatten)
  | [], r => by simp
  | chunk :: chunks, r => by
    rw [List.foldl_cons]
    refine (foldl_feed_some s chunks (r.append chunk)).trans ?_
    simp [Reading.append]

theorem foldl_feed : ∀ (chunks : List QByteArray) (chunk : QByteArray) (r : Reading δ),
    Framed E depth ((r.append chunk).append chunks.flatten) →
      chunks.foldl (feed E depth) (feed E depth (none, r) chunk)
        = read E depth true true ((r.append chunk).append chunks.flatten)
  | [], chunk, r, _ => by rw [List.foldl_nil, feed_none, List.flatten_nil, Reading.append_nil]
  | next :: chunks, chunk, r, h => by
    rw [feed_none, read_eq, read_eq]
    cases hread : readAll E depth true (r.append chunk) with
    | mk st r₁ =>
      obtain ⟨herror, hmore⟩ := readAll_append E h rfl hread
      by_cases hst : st = .SignalError
      · rw [herror hst, hst, if_pos rfl, foldl_feed_some]
      · obtain ⟨hframed, hall⟩ := hmore hst
        have happend : r₁.append (next :: chunks).flatten = (r₁.append next).append chunks.flatten := by
          simp [Reading.append]
        rw [happend] at hframed hall
        have ih := foldl_feed chunks next r₁ hframed
        rw [hall, if_neg hst, List.foldl_cons, ih, read_eq]

/-- **Chunks make no difference**: however the bytes of a stream arrive, with one `read()` after each chunk, the events
that were dispatched and the state of the parser are those of reading the whole stream at once. -/
theorem feed_chunks (depth : Nat) (d : PerfData δ) (chunks : List QByteArray) (h : Framed E depth ⟨d, chunks.flatten⟩) :
    chunks.foldl (feed E depth) (none, ⟨d, []⟩) = feed E depth (none, ⟨d, []⟩) chunks.flatten := by
  cases chunks with
  | nil =>
    rw [List.foldl_nil, feed_none, List.flatten_nil, Reading.append_nil, read_eq, readAll_nil E rfl]
    rfl
  | cons chunk chunks =>
    have hflat : Reading.append ⟨d, []⟩ (chunk :: chunks).flatten
        = (Reading.append ⟨d, []⟩ chunk).append chunks.flatten := by simp [Reading.append]
    rw [List.foldl_cons, feed_none E ((chunk :: chunks).flatten), hflat]
    refine foldl_feed E chunks chunk ⟨d, []⟩ ?_
    rw [← hflat]
    exact h

/-- A host without compression, and tracing data of which nothing is recognised. -/
def plainEnv (bigEndian : Bool) : Env Unit where
  bigEndian := bigEndian
  hasCompressed := false
  mmapLen := 0
  zstd :=
    { init := ()
      decompressStream := fun _ _ _ => none
      consumed_le := by simp
      produced_le := by simp
      calls := fun _ _ _ => 0
      calls_lt := by simp }
  parseTracingData := fun t _ => t

/-- A `COMM` record, tracing data of four bytes and a finished round, cut in the content of the first, in the size and in
the data of the second and in the header of the third. -/
theorem feed_chunks_cut :
    let chunks : List QByteArray :=
      [[3, 0, 0, 0, 0, 0, 20, 0, 5, 0], [0, 0, 6, 0, 0, 0, 115, 104, 0, 0, 66, 0, 0, 0, 0, 0, 12, 0, 4, 0],
        [0, 0, 1, 2], [3, 4, 68, 0, 0], [0, 0, 0, 8, 0]]
    chunks.foldl (feed (plainEnv false) 0) (none, ⟨{}, []⟩) = feed (plainEnv false) 0 (none, ⟨{}, []⟩) chunks.flatten :=
  feed_chunks (plainEnv false) 0 {} _ <|
    .event (by decide) rfl (by decide) <| .event (by decide) rfl (by decide) <|
    .event (by decide) rfl (by decide) <| .done rfl

end PerfData

end PerfParser
