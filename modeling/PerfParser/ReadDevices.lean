import PerfParser.ReadEvents
/-!
# ReadDevices — sequential and random-access devices

The only thing `processEvents` does for one kind of device and not for the other is at the end of an event: on a
random-access device it skips what the decoder left of the content.  So an event is read alike from both kinds if and
only if its decoder leaves none (`processEvents_devices`).
-/
namespace PerfParser
namespace PerfData

open QDataStream Reader

variable {δ : Type} (E : Env δ) {depth : Nat} {nested : Reading δ → ReadStatus × Reading δ} {r r₁ : Reading δ}

/-- The content of the event is there, and its decoder leaves some of it: for tracing data, because the parser has a size
of less than four bytes from before. -/
def LeavesContent (r : Reading δ) : Prop :=
  r.data.eventHeader.contentSize ≤ r.unread.length ∧
    if isTracing r then 0 < r.data.tracingData.size.toNat ∧ r.data.tracingData.size.toNat < 4
    else r.data.eventHeader.eventType ≠ .compressed
      ∧ r.unread.length < (r.apply (readEvent E)).unread.length + r.data.eventHeader.contentSize

instance : Decidable (LeavesContent E r) := inferInstanceAs (Decidable (_ ∧ ite _ _ _))

theorem length_handleTracingBlob (h : handleTracingBlob E r = (.SignalFinished, r₁)) :
    ∃ n ≤ r.data.tracingData.size.toNat, (n = r.data.tracingData.size.toNat ∨ intMax ≤ n)
      ∧ r₁.unread.length + n = r.unread.length := by
  unfold handleTracingBlob at h
  by_cases hshort : r.unread.length < r.data.tracingData.size.toNat
  · rw [if_pos hshort] at h
    cases (Prod.mk.inj h).1
  · rw [if_neg hshort] at h
    obtain ⟨n, hn, hmax, htakes⟩ := takes_readTracingData E r.data.tracingData
    obtain ⟨-, rfl⟩ := Prod.mk.inj h
    exact ⟨n, hn, hmax, Reading.length_apply (f := readTracing E) (htakes.map _) (by omega)⟩

theorem unread_handleCompressed (h : handleCompressed E nested r = (.SignalFinished, r₁)) :
    r₁.unread = r.unread.drop r.data.eventHeader.contentSize := by
  unfold handleCompressed at h
  simp only at h
  split at h
  · cases (Prod.mk.inj h).1
  · revert h
    generalize decompress E _ _ _ _ = result
    cases result with
    | none =>
      intro h
      cases (Prod.mk.inj h).1
    | some p =>
      intro h
      rw [← (Prod.mk.inj h).2]
      rfl

/-- What the `switch` leaves of the content. -/
theorem leavesContent_iff (hlen : r.data.eventHeader.contentSize ≤ r.unread.length)
    (h : handleEvent E nested r = (.SignalFinished, r₁)) :
    LeavesContent E r ↔ r.unread.length < r₁.unread.length + r.data.eventHeader.contentSize := by
  unfold LeavesContent
  by_cases htr : isTracing r
  · rw [if_pos htr, htr.2]
    rw [htr.2] at hlen
    rw [handleEvent_of_isTracing E htr] at h
    obtain ⟨n, hn, hmax, hblob⟩ := length_handleTracingBlob E h
    by_cases hsize : r.data.tracingData.size = 0
    · have htakes := takes_readTracingSize E r.data
      rw [if_pos hsize] at htakes
      have hfour := Reading.length_apply htakes hlen
      rw [hsize]
      simp only [UInt32.toNat_zero]
      omega
    · rw [apply_readTracingSize_of_ne E hsize] at hn hmax hblob
      have hpos : 0 < r.data.tracingData.size.toNat :=
        Nat.pos_of_ne_zero fun h0 => hsize (UInt32.toNat_inj.1 h0)
      unfold intMax at hmax
      omega
  · rw [if_neg htr]
    by_cases htype : r.data.eventHeader.eventType = .compressed
    · rw [handleEvent_of_compressed E htype] at h
      have hraw := congrArg List.length (unread_handleCompressed E h)
      rw [List.length_drop] at hraw
      constructor
      · exact fun hleaves => absurd htype hleaves.2.1
      · omega
    · rw [handleEvent_of_plain E htr htype] at h
      obtain ⟨-, rfl⟩ := Prod.mk.inj h
      exact ⟨fun hleaves => hleaves.2.2, fun hleft => ⟨hlen, htype, hleft⟩⟩

theorem LeavesContent.finished (h : LeavesContent E r) :
    ∃ r₁, handleEvent E nested r = (.SignalFinished, r₁) := by
  obtain ⟨hlen, hleaves⟩ := h
  by_cases htr : isTracing r
  · rw [if_pos htr] at hleaves
    rw [htr.2] at hlen
    have hsize : r.data.tracingData.size ≠ 0 := fun h0 => by
      rw [h0] at hleaves
      exact absurd hleaves.1 (by decide)
    rw [handleEvent_of_isTracing E htr, apply_readTracingSize_of_ne E hsize]
    exact ⟨_, if_neg (by omega)⟩
  · rw [if_neg htr] at hleaves
    exact ⟨_, handleEvent_of_plain E htr hleaves.1⟩

/-! ## One event -/

/-- The header of the event is there, and its decoder leaves some of the content. -/
def LeavesSome (r : Reading δ) : Prop :=
  (r.data.eventHeader.size = 0 →
      8 ≤ r.unread.length ∧ ¬(started E r).data.eventHeader.size < PerfEventHeader.fixedLength)
    ∧ LeavesContent E (started E r)

instance : Decidable (LeavesSome E r) := inferInstanceAs (Decidable ((_ → _) ∧ _))

theorem processContent_devices :
    processContent E nested true r = processContent E nested false r ↔ ¬LeavesContent E r := by
  by_cases hlen : r.unread.length < r.data.eventHeader.contentSize
  · rw [processContent_of_short E hlen, processContent_of_short E hlen]
    exact ⟨fun _ h => absurd h.1 (by omega), fun _ => rfl⟩
  · have hlen : r.data.eventHeader.contentSize ≤ r.unread.length := by omega
    cases hhandle : handleEvent E nested r with
    | mk st r' =>
      cases st with
      | SignalFinished =>
        have hle : (handleEvent E nested r).2.unread.length ≤ r.unread.length := length_handleEvent_le E
        rw [hhandle] at hle
        simp only at hle
        rw [leavesContent_iff E hlen hhandle, processContent_of_finished E hlen hhandle,
          processContent_of_finished E hlen hhandle]
        constructor
        · intro h hleft
          have hunread : r'.unread
              = r'.unread.drop (r.data.eventHeader.contentSize - (r.unread.length - r'.unread.length)) :=
            congrArg (fun p => p.2.unread) h
          have := congrArg List.length hunread
          rw [List.length_drop] at this
          omega
        · intro hleft
          have hzero : r.data.eventHeader.contentSize - (r.unread.length - r'.unread.length) = 0 := by omega
          unfold finishEvent
          rw [hzero]
          rfl
      | _ =>
        rw [processContent_of_failed E hlen hhandle (by decide), processContent_of_failed E hlen hhandle (by decide)]
        refine ⟨fun _ hleaves => ?_, fun _ => rfl⟩
        obtain ⟨r₁, h₁⟩ : ∃ r₁, handleEvent E nested _ = (.SignalFinished, r₁) := hleaves.finished E
        cases (Prod.mk.inj (hhandle.symm.trans h₁)).1

/-- One event is read alike from both kinds of device, unless its decoder leaves some of its content. -/
theorem processEvents_devices :
    processEvents E depth true r = processEvents E depth false r ↔ ¬LeavesSome E r := by
  obtain ⟨nested, hnested⟩ := exists_nested E depth
  rw [hnested]
  by_cases hshort : r.data.eventHeader.size = 0 ∧ r.unread.length < 8
  · rw [processEvent_of_short E hshort.1 hshort.2, processEvent_of_short E hshort.1 hshort.2]
    exact ⟨fun _ h => absurd (h.1 hshort.1).1 (by omega), fun _ => rfl⟩
  · have hlen : r.data.eventHeader.size = 0 → 8 ≤ r.unread.length := fun h0 => by
      by_contra hlt
      exact hshort ⟨h0, by omega⟩
    by_cases hbad : r.data.eventHeader.size = 0 ∧ (started E r).data.eventHeader.size < PerfEventHeader.fixedLength
    · rw [processEvent_of_bad E hbad.1 (hlen hbad.1) hbad.2, processEvent_of_bad E hbad.1 (hlen hbad.1) hbad.2]
      exact ⟨fun _ h => (h.1 hbad.1).2 hbad.2, fun _ => rfl⟩
    · have hgood : r.data.eventHeader.size = 0 →
          8 ≤ r.unread.length ∧ ¬(started E r).data.eventHeader.size < PerfEventHeader.fixedLength :=
        fun h0 => ⟨hlen h0, fun hlt => hbad ⟨h0, hlt⟩⟩
      rw [processEvent_of_started E hgood, processEvent_of_started E hgood, processContent_devices]
      exact ⟨fun h hleaves => h hleaves.2, fun h hleaves => h ⟨hgood, hleaves⟩⟩

end PerfData
end PerfParser
