import PerfParser.ReadEvents
/-!
# FinishReading — where a stream may end

When a sequential device closes, what is left of its stream is read once more, which changes nothing (`readAll_again`).
Whether it ended inside an event is then told from `m_eventHeader.size` alone, however it was cut into chunks
(`close_waitsAt`).
-/
namespace PerfParser

open QDataStream

variable {δ : Type}

namespace PerfData

variable (E : Env δ) {depth : Nat} {nested : Reading δ → ReadStatus × Reading δ} {r r₁ : Reading δ}

/-! ## An event tried again -/

theorem started_of_ne (h : r.data.eventHeader.size ≠ 0) : started E r = r := if_neg h

/-- Tracing data of which not all are there have a size. -/
theorem tracingSize_of_rerun (h : handleEvent E nested r = (.Rerun, r₁)) : r₁.data.tracingData.size ≠ 0 := by
  obtain ⟨htr, -⟩ := handleEvent_rerun E h
  rw [handleEvent_of_isTracing E htr] at h
  unfold handleTracingBlob at h
  split at h
  · rename_i hshort
    obtain ⟨-, rfl⟩ := Prod.mk.inj h
    intro h0
    rw [h0] at hshort
    exact Nat.not_lt_zero _ hshort
  · cases (Prod.mk.inj h).1

theorem handleEvent_again (h : handleEvent E nested r = (.Rerun, r₁)) : handleEvent E nested r₁ = (.Rerun, r₁) := by
  obtain ⟨htr, hr₁⟩ := handleEvent_rerun E h
  have hsize := tracingSize_of_rerun E h
  have hheader : r₁.data.eventHeader = r.data.eventHeader := by rw [hr₁, apply_readTracingSize_eventHeader]
  have htr₁ : isTracing r₁ := by
    unfold isTracing
    rw [hheader]
    exact htr
  rw [handleEvent_of_isTracing E htr, ← hr₁] at h
  rw [handleEvent_of_isTracing E htr₁, apply_readTracingSize_of_ne E hsize]
  exact h

theorem processContent_again (h : processContent E nested true r = (.Rerun, r₁)) :
    processContent E nested true r₁ = (.Rerun, r₁) ∧ r₁.data.eventHeader = r.data.eventHeader := by
  by_cases hshort : r.unread.length < r.data.eventHeader.contentSize
  · have hr₁ := (Prod.mk.inj ((processContent_of_short E hshort true).symm.trans h)).2
    subst hr₁
    exact ⟨h, rfl⟩
  · have hlen := Nat.not_lt.1 hshort
    cases hhandle : handleEvent E nested r with
    | mk st r₂ =>
      cases st with
      | SignalFinished =>
        rw [processContent_of_finished E hlen hhandle] at h
        cases (Prod.mk.inj h).1
      | SignalError =>
        rw [processContent_of_failed E hlen hhandle (by decide)] at h
        cases (Prod.mk.inj h).1
      | Rerun =>
        rw [processContent_of_failed E hlen hhandle (by decide)] at h
        obtain ⟨-, rfl⟩ := Prod.mk.inj h
        obtain ⟨-, hr₂⟩ := handleEvent_rerun E hhandle
        have hheader : r₂.data.eventHeader = r.data.eventHeader := by rw [hr₂, apply_readTracingSize_eventHeader]
        refine ⟨?_, hheader⟩
        by_cases hshort₂ : r₂.unread.length < r₂.data.eventHeader.contentSize
        · exact processContent_of_short E hshort₂ true
        · exact processContent_of_failed E (Nat.not_lt.1 hshort₂) (handleEvent_again E hhandle) (by decide) true

/-- **An event that was given up is given up again** as long as nothing more arrives. -/
theorem processEvent_again (h : processEvent E nested true r = (.Rerun, r₁)) :
    processEvent E nested true r₁ = (.Rerun, r₁) := by
  by_cases hshort : r.data.eventHeader.size = 0 ∧ r.unread.length < 8
  · have hr₁ := (Prod.mk.inj ((processEvent_of_short E hshort.1 hshort.2 true).symm.trans h)).2
    subst hr₁
    exact h
  · by_cases hbad : r.data.eventHeader.size = 0 ∧ (started E r).data.eventHeader.size < PerfEventHeader.fixedLength
    · have hlen : 8 ≤ r.unread.length := Nat.not_lt.1 fun hlt => hshort ⟨hbad.1, hlt⟩
      rw [processEvent_of_bad E hbad.1 hlen hbad.2] at h
      cases (Prod.mk.inj h).1
    · have hgood : r.data.eventHeader.size = 0 →
          8 ≤ r.unread.length ∧ ¬(started E r).data.eventHeader.size < PerfEventHeader.fixedLength := fun h0 =>
        ⟨Nat.not_lt.1 fun hlt => hshort ⟨h0, hlt⟩, fun hlt => hbad ⟨h0, hlt⟩⟩
      rw [processEvent_of_started E hgood] at h
      obtain ⟨hagain, hheader⟩ := processContent_again E h
      have hne : r₁.data.eventHeader.size ≠ 0 := by
        rw [hheader]
        by_cases h0 : r.data.eventHeader.size = 0
        · intro hzero
          exact (hgood h0).2 (by rw [hzero]; decide)
        · rw [started_of_ne E h0]
          exact h0
      rw [processEvent_of_started E (fun h0 => absurd h0 hne), started_of_ne E hne]
      exact hagain

/-! ## A stream read again -/

/-- Nothing more can be read of what has arrived. -/
def Exhausted (depth : Nat) (r : Reading δ) : Prop :=
  r.unread = [] ∨ processEvents E depth true r = (.Rerun, r)

theorem readEvents_exhausted : ∀ (fuel : Nat) (r : Reading δ), iterations r ≤ fuel →
    (readEvents E depth true fuel r).1 ≠ .SignalError → Exhausted E depth (readEvents E depth true fuel r).2
  | 0, r, hfuel, _ => by
    have hlen : r.unread.length = 0 := by
      unfold iterations at hfuel
      omega
    exact .inl (List.length_eq_zero_iff.1 hlen)
  | fuel + 1, r, hfuel, herror => by
    unfold readEvents at herror ⊢
    by_cases hnil : r.unread = []
    · rw [if_pos hnil]
      exact .inl hnil
    · rw [if_neg hnil] at herror ⊢
      obtain ⟨nested, hnested⟩ := exists_nested E depth
      cases hp : processEvents E depth true r with
      | mk st r₁ =>
        rw [hp] at herror
        cases st with
        | SignalFinished =>
          have hfinished := processEvent_finished E (hnested ▸ hp)
          refine readEvents_exhausted fuel r₁ ?_ herror
          have hpos : r.unread.length ≠ 0 := fun h => hnil (List.length_eq_zero_iff.1 h)
          unfold iterations at hfuel ⊢
          rw [if_pos hfinished.1]
          split at hfuel <;> rename_i h0
          · rw [if_pos h0] at hfinished
            omega
          · rw [if_neg h0] at hfinished
            omega
        | SignalError => exact absurd rfl herror
        | Rerun =>
          rw [hnested] at hp
          unfold Exhausted
          rw [hnested]
          exact .inr (processEvent_again E hp)

theorem readAll_exhausted (h : (readAll E depth true r).1 ≠ .SignalError) :
    Exhausted E depth (readAll E depth true r).2 := by
  refine readEvents_exhausted E _ r ?_ h
  unfold iterations
  split <;> omega

/-- **What was read as far as it goes stays as it is** when it is read again. -/
theorem readAll_again (h : Exhausted E depth r) :
    (readAll E depth true r).1 ≠ .SignalError ∧ (readAll E depth true r).2 = r := by
  by_cases hnil : r.unread = []
  · rw [readAll_nil E hnil]
    exact ⟨nofun, rfl⟩
  · rw [readAll_failed E hnil (h.resolve_left hnil) (by decide)]
    exact ⟨nofun, rfl⟩

/-! ## In any chunks -/

/-- The parser reads `r` as events that take exactly their content, up to `r'` where it waits for more. -/
inductive WaitsAt (depth : Nat) : Reading δ → Reading δ → Prop
  | done {r : Reading δ} : r.unread = [] → WaitsAt depth r r
  | short {r r' : Reading δ} : r.unread ≠ [] → processEvents E depth true r = (.Rerun, r') →
      (isTracing (started E r) →
        (started E r).data.eventHeader.contentSize ≤ (started E r).unread.length → TakesContent E (started E r) []) →
      WaitsAt depth r r'
  | event {r r₁ r' : Reading δ} : r.unread ≠ [] → processEvents E depth true r = (.SignalFinished, r₁) →
      TakesContent E (started E r) r₁.unread → WaitsAt depth r₁ r' → WaitsAt depth r r'

theorem readAll_waitsAt {r r' : Reading δ} (h : WaitsAt E depth r r') :
    (readAll E depth true r).1 ≠ .SignalError ∧ (readAll E depth true r).2 = r' := by
  induction h with
  | done hnil =>
    rw [readAll_nil E hnil]
    exact ⟨nofun, rfl⟩
  | short hne hp _ =>
    rw [readAll_failed E hne hp (by decide)]
    exact ⟨nofun, rfl⟩
  | event hne hp _ _ ih => rwa [readAll_finished E hne hp]

/-- What an event of which only a part has arrived leaves the parser to wait for. -/
theorem waitsAt_rerun {r r' y : Reading δ} {more : QByteArray}
    (hfull : processEvents E depth true (r.append more) = (.Rerun, y))
    (htracing : isTracing (started E (r.append more)) →
      (started E (r.append more)).data.eventHeader.contentSize ≤ (started E (r.append more)).unread.length →
      TakesContent E (started E (r.append more)) [])
    (hp : processEvents E depth true r = (.Rerun, r')) : WaitsAt E depth (r'.append more) y := by
  obtain ⟨nested, hnested⟩ := exists_nested E depth
  obtain ⟨hresume, hkept⟩ := processEvent_resume E (hnested ▸ hp) more fun htr hlen h0 => by
    have htakes := htracing htr hlen
    unfold TakesContent at htakes
    rw [if_pos htr] at htakes
    exact htakes h0
  by_cases hnil : (r'.append more).unread = []
  · -- nothing more arrives, so it is `r` that was tried
    obtain rfl : more = [] := (List.append_eq_nil_iff.1 hnil).2
    rw [Reading.append_nil] at hfull hnil ⊢
    obtain ⟨-, rfl⟩ := Prod.mk.inj (hp.symm.trans hfull)
    exact .done hnil
  · refine .short hnil (by rw [hnested, hresume, ← hnested]; exact hfull) fun htr hlen => ?_
    rcases hkept with hkept | hkept
    · rw [hkept] at htr hlen ⊢
      exact htracing htr hlen
    · unfold TakesContent
      rw [if_pos htr]
      exact fun h0 => absurd h0 hkept.1

theorem waitsAt_append_nil {x y r₁ : Reading δ} {more : QByteArray} {st : ReadStatus} (h : WaitsAt E depth x y)
    (hx : x = r.append more) (hr : r.unread = []) (hread : readAll E depth true r = (st, r₁)) :
    st ≠ .SignalError ∧ WaitsAt E depth (r₁.append more) y := by
  obtain ⟨rfl, rfl⟩ := Prod.mk.inj ((readAll_nil E hr).symm.trans hread)
  exact ⟨nofun, hx ▸ h⟩

/-- **A part of what is read is read alike**, and leaves the parser to read the rest. -/
theorem waitsAt_append {x y : Reading δ} (h : WaitsAt E depth x y) : ∀ {r r₁ : Reading δ} {more : QByteArray}
    {st : ReadStatus}, x = r.append more → readAll E depth true r = (st, r₁) →
      st ≠ .SignalError ∧ WaitsAt E depth (r₁.append more) y := by
  induction h with
  | @done x hx₀ =>
    intro r r₁ more st hx hread
    refine waitsAt_append_nil E (.done hx₀) hx ?_ hread
    rw [hx] at hx₀
    exact (List.append_eq_nil_iff.1 hx₀).1
  | @short x y hne hfull htracing =>
    intro r r₁ more st hx hread
    by_cases hr : r.unread = []
    · exact waitsAt_append_nil E (.short hne hfull htracing) hx hr hread
    · subst hx
      cases hp : processEvents E depth true r with
      | mk st' r' =>
        by_cases hst : st' = .Rerun
        · subst hst
          obtain ⟨rfl, rfl⟩ := Prod.mk.inj ((readAll_failed E hr hp (by decide)).symm.trans hread)
          exact ⟨nofun, waitsAt_rerun E hfull htracing hp⟩
        · obtain ⟨nested, hnested⟩ := exists_nested E depth
          have happend : processEvent E nested true (r.append more) = _ :=
            processEvent_append E (hnested ▸ hp) hst fun r₂ h₂ => by
              rw [← hnested, hfull] at h₂
              cases (Prod.mk.inj h₂).1
          rw [← hnested, hfull] at happend
          exact absurd (Prod.mk.inj happend).1.symm hst
  | @event x x' y hne hfull htakes hrest ih =>
    intro r r₁ more st hx hread
    by_cases hr : r.unread = []
    · exact waitsAt_append_nil E (.event hne hfull htakes hrest) hx hr hread
    · subst hx
      have htracing : isTracing (started E (r.append more)) →
          (started E (r.append more)).data.tracingData.size = 0 →
          4 ≤ ((started E (r.append more)).apply (readTracingSize E)).data.tracingData.size.toNat := fun htr h0 => by
        unfold TakesContent at htakes
        rw [if_pos htr] at htakes
        exact htakes h0
      cases hp : processEvents E depth true r with
      | mk st' r' =>
        rcases processEvents_part E hp hfull (by decide) (fun _ => htakes) htracing with
          ⟨rfl, hx'⟩ | ⟨rfl, hne', hresume, hkept⟩
        · rw [readAll_finished E hr hp] at hread
          exact ih hx' hread
        · obtain ⟨rfl, rfl⟩ := Prod.mk.inj ((readAll_failed E hr hp (by decide)).symm.trans hread)
          exact ⟨nofun, .event hne' hresume (hkept _ htakes) hrest⟩

/-- **However the chunks cut it, the parser waits at the same place.** -/
theorem foldl_feed_waitsAt {y : Reading δ} : ∀ (chunks : List QByteArray) {r : Reading δ},
    Exhausted E depth r → WaitsAt E depth (r.append chunks.flatten) y →
      chunks.foldl (feed E depth) (none, r) = (none, y)
  | [], r, hr, h => by
    rw [List.flatten_nil, Reading.append_nil] at h
    rw [List.foldl_nil, ← (readAll_waitsAt E h).2, (readAll_again E hr).2]
  | chunk :: chunks, r, hr, h => by
    cases hread : readAll E depth true (r.append chunk) with
    | mk st r₁ =>
      have hflat : r.append (chunk :: chunks).flatten = (r.append chunk).append chunks.flatten := by
        simp [Reading.append]
      obtain ⟨hst, hrest⟩ := waitsAt_append E h hflat hread
      have hfeed : feed E depth (none, r) chunk = (none, r₁) := by
        rw [feed_none, read_eq, hread]
        exact congrArg (·, r₁) (if_neg hst)
      have hexhausted := readAll_exhausted E (r := r.append chunk) (by rw [hread]; exact hst)
      rw [hread] at hexhausted
      rw [List.foldl_cons, hfeed]
      exact foldl_feed_waitsAt chunks hexhausted hrest

/-! ## Closing the device -/

theorem finishReading_of_exhausted (h : Exhausted E depth r) (isOpen : Bool) :
    finishReading E depth true isOpen r = (if r.data.eventHeader.size = 0 then .finished else .error, r) := by
  obtain ⟨hnot, hr⟩ := readAll_again E h
  unfold readAll at hnot hr
  unfold finishReading doRead
  generalize readEvents E depth true (r.unread.length + 1) r = result at *
  obtain ⟨st, r'⟩ := result
  dsimp only at hnot hr
  subst hr
  cases isOpen with
  | true => simp [hnot]
  | false => by_cases h0 : r'.data.eventHeader.size = 0 <;> simp [hnot, h0]

/-- **The signal of a stream** whose parser waits for more tells whether it has read a header. -/
theorem close_waitsAt {d : PerfData δ} {chunks : List QByteArray} {y : Reading δ}
    (h : WaitsAt E depth ⟨d, chunks.flatten⟩ y) (isOpen : Bool) :
    close E depth isOpen (chunks.foldl (feed E depth) (none, ⟨d, []⟩)) =
      if y.data.eventHeader.size = 0 then .finished else .error := by
  obtain ⟨hst, hy⟩ := readAll_waitsAt E h
  have hexhausted := readAll_exhausted E hst
  rw [hy] at hexhausted
  rw [foldl_feed_waitsAt E chunks (.inl rfl) h]
  exact congrArg Prod.fst (finishReading_of_exhausted E hexhausted isOpen)

end PerfData

end PerfParser
