import PerfParser.UnwindCalm
import PerfParser.SymbolMaps
/-!
# UnwindForks — the maps of forked processes

A fork copies the map of the parent over that of the child, and an exit drops it.  Where both come before every mmap of
their process that arrived after them, the map a sample finds is the one its mmaps left since (`run_mapsReflect`).  At
equal times they need not: the mmaps up to a fork are forwarded before it, those that arrived after it among them.
-/
namespace PerfParser

open History (Always)

/-- The event replaces the map of its process. -/
def TaskEvent.replacesMap (e : TaskEvent) : Bool := e.forkedFrom.isSome || e.endsProcess

/-! ## The trace -/

namespace Entry

variable {σ : Type}

/-- The task event that replaces a map. -/
def reset? : Entry σ → Option TaskEvent
  | .call _ _ (.initAfterFork e _) => some e
  | .call _ _ (.dropSymbolTable e) => some e
  | _ => none

/-- An mmap that is registered, with its build id. -/
def registration? : Entry σ → Option (PerfRecordMmap × QByteArray)
  | .call _ _ (.registerElf m id) => some (m, id)
  | _ => none

end Entry

section Trace

variable {σ : Type}

def resets (trace : List (Entry σ)) : List TaskEvent := trace.filterMap Entry.reset?

/-- The mmaps of a process, as they were registered. -/
def registrations (pid : Int32) (trace : List (Entry σ)) : List (PerfRecordMmap × QByteArray) :=
  (trace.filterMap Entry.registration?).filter (fun r => r.1.pid = pid)

@[simp] theorem resets_nil : resets ([] : List (Entry σ)) = [] := rfl

@[simp] theorem resets_append (t t' : List (Entry σ)) : resets (t ++ t') = resets t ++ resets t' :=
  List.filterMap_append ..

@[simp] theorem resets_arrived (event : Event) (t : List (Entry σ)) : resets (.arrived event :: t) = resets t := rfl

@[simp] theorem resets_trailing (waiting : List TaskEvent) (size desired : UInt32) (t : List (Entry σ)) :
    resets (.trailing waiting size desired :: t) = resets t := rfl

@[simp] theorem resets_call (last : UInt64) (b : σ) (x : Call) (t : List (Entry σ)) : resets (.call last b x :: t) =
    (match x with | .initAfterFork e _ => [e] | .dropSymbolTable e => [e] | _ => []) ++ resets t := by
  cases x <;> rfl

@[simp] theorem registrations_append (pid : Int32) (t t' : List (Entry σ)) :
    registrations pid (t ++ t') = registrations pid t ++ registrations pid t' := by
  unfold registrations
  rw [List.filterMap_append, List.filter_append]

theorem reset?_of_note {x : Call} (hx : x.isNote = true) (last : UInt64) (b : σ) :
    (Entry.call last b x).reset? = none := by
  cases x <;> first | rfl | cases hx

theorem registrations_eq_nil {trace : List (Entry σ)} (h : registered trace = []) (pid : Int32) :
    registrations pid trace = [] := by
  have hnone : trace.filterMap Entry.registration? = [] := by
    refine List.filterMap_eq_nil_iff.2 (fun x hx => ?_)
    have := List.filterMap_eq_nil_iff.1 h x hx
    cases x with
    | call last b x => cases x <;> first | rfl | cases this
    | _ => rfl
  rw [registrations, hnone]
  rfl

/-- The entry that registered an mmap. -/
theorem split_registered {trace : List (Entry σ)} {ms ms' : List PerfRecordMmap} {m : PerfRecordMmap}
    (h : registered trace = ms ++ m :: ms') : ∃ p last b id q, trace = p ++ .call last b (.registerElf m id) :: q ∧
      registered p = ms ∧ registered q = ms' := by
  obtain ⟨p, t, rfl, hp, ht⟩ := List.filterMap_eq_append_iff.1 h
  obtain ⟨p', x, q, rfl, hnone, hx, hq⟩ := List.filterMap_eq_cons_iff.1 ht
  cases x with
  | arrived event => cases hx
  | trailing waiting size desired => cases hx
  | call last b x =>
    cases x <;> cases hx
    rename_i id
    refine ⟨p ++ p', last, b, id, q, by simp, ?_, hq⟩
    rw [registered_append, show registered p = ms from hp, show registered p' = [] from
      List.filterMap_eq_nil_iff.2 hnone, List.append_nil]

end Trace

/-! ## Arrival order -/

/-- The events before the task event at a position. -/
def eventsBefore : Nat → List Event → List Event
  | _, [] => []
  | k, .sample s :: events => .sample s :: eventsBefore k events
  | k, .mmap m :: events => .mmap m :: eventsBefore k events
  | 0, .task _ :: _ => []
  | k + 1, .task e :: events => .task e :: eventsBefore k events

theorem eq_eventsBefore {e : TaskEvent} {after : List TaskEvent} : ∀ (events : List Event) {before : List TaskEvent},
    events.filterMap Event.task? = before ++ e :: after →
      ∃ rest, events = eventsBefore before.length events ++ .task e :: rest
  | [], before, h => by cases before <;> cases h
  | .sample s :: events, before, h => by
    obtain ⟨rest, hrest⟩ := eq_eventsBefore events h
    exact ⟨rest, congrArg (.sample s :: ·) hrest⟩
  | .mmap m :: events, before, h => by
    obtain ⟨rest, hrest⟩ := eq_eventsBefore events h
    exact ⟨rest, congrArg (.mmap m :: ·) hrest⟩
  | .task e' :: events, [], h => by
    obtain ⟨rfl, -⟩ := List.cons.inj h
    exact ⟨events, rfl⟩
  | .task e' :: events, e'' :: before, h => by
    obtain ⟨rfl, htail⟩ := List.cons.inj h
    obtain ⟨rest, hrest⟩ := eq_eventsBefore events htail
    exact ⟨rest, congrArg (.task e' :: ·) hrest⟩

/-- What stands behind more mmaps than an mmap does arrived after it. -/
theorem mem_after {e : TaskEvent} {m : PerfRecordMmap} {pre rest before after : List Event}
    (h : pre ++ .task e :: rest = before ++ .mmap m :: after)
    (hlt : (before.filterMap Event.mmap?).length < (pre.filterMap Event.mmap?).length) : .task e ∈ after := by
  rcases List.append_eq_append_iff.1 h with ⟨as, rfl, -⟩ | ⟨bs, rfl, hbs⟩
  · rw [List.filterMap_append, List.length_append] at hlt
    omega
  · cases bs with
    | nil => cases (List.cons.inj hbs).1
    | cons x bs =>
      rw [(List.cons.inj hbs).2]
      exact List.mem_append_right _ List.mem_cons_self

/-- A fork or exit replaces the map before any mmap of its process is registered that arrived after it. -/
def AppliedInOrder {σ : Type} (pre : List (Entry σ)) (x : Entry σ) : Prop :=
  ∀ e ∈ x.reset?, ∀ m ∈ (registered pre).drop
    ((eventsBefore (sent pre).length (arrivals pre)).filterMap Event.mmap?).length, m.pid ≠ e.pid

instance {σ : Type} (pre : List (Entry σ)) (x : Entry σ) : Decidable (AppliedInOrder pre x) :=
  inferInstanceAs (Decidable (∀ e ∈ x.reset?, ∀ m ∈ (registered pre).drop
    ((eventsBefore (sent pre).length (arrivals pre)).filterMap Event.mmap?).length, m.pid ≠ e.pid))

/-! ## What a map reflects -/

namespace SymbolTables

variable (H : Host)

/-- The map after a registration. -/
def register (map : PerfElfMap) (r : PerfRecordMmap × QByteArray) : PerfElfMap :=
  (map.registerElf (mappingOf H r.1 r.2)).1

/-- The mmap was registered, and since then the map of its process has only seen mmaps that arrived after it. -/
def Reflects (pre : List (Entry SymbolTables)) (s : SymbolTables) (m : PerfRecordMmap) (after : List Event) : Prop :=
  ∃ p last b id q, pre = p ++ .call last b (.registerElf m id) :: q ∧
    registered q <+: after.filterMap Event.mmap? ∧
    s.map m.pid = (registrations m.pid q).foldl (register H) (register H (b.map m.pid) (m, id))

/-- A sample finds in the map of its process every mmap up to its time that no fork or exit up to its time followed. -/
def MapsReflect (pre : List (Entry SymbolTables)) : Entry SymbolTables → Prop
  | .call _ s (.analyze sample) => ∀ before m after, arrivals pre = before ++ .mmap m :: after → m.pid = sample.pid →
      m.time ≤ sample.time →
      (∀ e, .task e ∈ after → e.pid = sample.pid → e.replacesMap = true → sample.time < e.time) →
      Reflects H pre s m after
  | _ => True

/-- **What a call does to the map of a process that no fork or exit replaces.** -/
theorem exec_map (r : Registry) (last : UInt64) (s : SymbolTables) (x : Call) (pid : Int32)
    (hx : ∀ e ∈ resets [Entry.call last s x], e.pid ≠ pid) :
    ((backend H).exec r s x).map pid = (registrations pid [Entry.call last s x]).foldl (register H) (s.map pid) := by
  cases x with
  | registerElf m id =>
    refine (s.registerElf_map H m id pid).trans ?_
    by_cases hpid : pid = m.pid
    · simp [registrations, Entry.registration?, register, hpid]
    · simp [registrations, Entry.registration?, hpid, Ne.symm hpid]
  | initAfterFork e parentPid =>
    exact (s.initAfterFork_map e.pid parentPid pid).trans (if_neg (Ne.symm (hx e (by simp))))
  | dropSymbolTable e => exact (s.dropSymbolTable_map e.pid pid).trans (if_neg (Ne.symm (hx e (by simp))))
  | analyze sample => exact s.analyze_sameMaps H sample pid
  | sendTaskEvent e => rfl
  | sendTimeOrderViolation mmapTime lastFlushMaxTime => rfl
  | sendAttributes id attributes name => exact s.resolveString_sameMaps name pid
  | sendEventFormat id format => exact s.sendEventFormat_sameMaps format pid
  | sendFeatures features => rfl

end SymbolTables

namespace Core

open SymbolTables

/-! ## Replaying the maps -/

/-- From every call on, the map of a process is what the mmaps registered since made of it, where no fork or exit
replaced it. -/
def Replays (H : Host) (c : Core SymbolTables) : Prop := ∀ pid p last b x q, c.trace = p ++ .call last b x :: q →
  (∀ e ∈ resets (.call last b x :: q), e.pid ≠ pid) →
    c.back.map pid = (registrations pid (.call last b x :: q)).foldl (register H) (b.map pid)

variable {H : Host}

theorem Replays.call {c : Core SymbolTables} (h : c.Replays H) (r : Registry) (x : Call) :
    (c.call (backend H) r x).Replays H := by
  intro pid p last b y q ht hr
  rcases History.split_snoc ht with ⟨rfl, hy, rfl⟩ | ⟨q', rfl, ht'⟩
  · obtain ⟨rfl, rfl, rfl⟩ := Entry.call.inj hy
    exact exec_map H r _ _ y pid hr
  · rw [← List.cons_append, resets_append] at hr
    rw [← List.cons_append, registrations_append, List.foldl_append]
    rw [← h pid p last b y q' ht' (fun e he => hr e (List.mem_append_left _ he))]
    exact exec_map H r c.last c.back x pid (fun e he => hr e (List.mem_append_right _ he))

theorem Replays.log {c c' : Core SymbolTables} (h : c.Replays H) {a : Entry SymbolTables}
    (ht : c'.trace = c.trace ++ [a]) (ha : ∀ last b x, a ≠ .call last b x) (hb : c'.back = c.back) :
    c'.Replays H := by
  intro pid p last b y q hsplit hr
  rw [ht] at hsplit
  rcases History.split_snoc hsplit with ⟨-, hy, -⟩ | ⟨q', rfl, ht'⟩
  · exact absurd hy.symm (ha last b y)
  · have hnone : registrations pid [a] = [] := by
      cases a with
      | call last b x => exact absurd rfl (ha last b x)
      | _ => rfl
    rw [← List.cons_append, resets_append] at hr
    rw [← List.cons_append, registrations_append, hnone, List.append_nil, hb]
    exact h pid p last b y q' ht' (fun e he => hr e (List.mem_append_left _ he))

theorem Move.replays {late : Bool} {c c' : Core SymbolTables} (h : Move (backend H) late c c') (hc : c.Replays H) :
    c'.Replays H := by
  cases h with
  | arrive event =>
    exact hc.log (arrive_trace c event) (fun _ _ _ he => by cases he) (by cases event <;> rfl)
  | step h =>
    cases h with
    | sort => exact hc
    | note r x hx => exact hc.call r x
    | resolve string => exact hc
    | advance s hs hlast => exact hc
    | forward r m ms id hm hlast htasks => exact Replays.call (c := { c with mmaps := ms }) hc r _
    | forked r r' e es parentPid he hf hlast hmmaps =>
      exact (Replays.call (c := { c with tasks := es }) hc r _).call r' _
    | ended r r' e es he hf hd hlast => exact (Replays.call (c := { c with tasks := es }) hc r _).call r' _
    | plain r e es he hf hd hlast => exact Replays.call (c := { c with tasks := es }) hc r _
    | analyze r s ss hs hlast hnow hmmaps htasks => exact Replays.call (c := { c with samples := ss }) hc r _
    | leave size desired => exact hc.log rfl (fun _ _ _ he => by cases he) rfl
    | trail r e es waiting size desired he hmark hdue => exact Replays.call (c := { c with tasks := es }) hc r _

/-! ## Forks and exits -/

/-- A fork or exit that replaces a map is the next task event to be sent. -/
def NextToSend {σ : Type} (pre : List (Entry σ)) (x : Entry σ) : Prop :=
  ∀ e ∈ x.reset?, e.replacesMap = true ∧ ∃ es, arrivedTasks pre = sent pre ++ e :: es

/-- The forks and exits along a run in time. -/
structure Resets {σ : Type} (c : Core σ) : Prop where
  straight : c.Straight
  bounded : ∀ e ∈ resets c.trace, e.time ≤ c.last
  next : Always NextToSend c.trace

variable {σ : Type} {B : Backend σ}

theorem Resets.quiet {c c' : Core σ} (h : c.Resets) (hs : c'.Straight) (hlast : c.last ≤ c'.last) (t : List (Entry σ))
    (ht : c'.trace = c.trace ++ t) (hr : ∀ x ∈ t, x.reset? = none) : c'.Resets where
  straight := hs
  bounded e he := by
    rw [ht, resets_append, show resets t = [] from List.filterMap_eq_nil_iff.2 hr, List.append_nil] at he
    exact Std.le_trans (h.bounded e he) hlast
  next := by
    rw [ht]
    refine History.always_append h.next (fun pre x post hx e he => ?_)
    rw [hr x (by rw [hx]; simp)] at he
    cases he

/-- A fork or exit that replaces a map, and is sent. -/
theorem Resets.replace {c : Core σ} (h : c.Resets) {e : TaskEvent} {es : List TaskEvent} (he : c.tasks = e :: es)
    (hreplaces : e.replacesMap = true) (hlast : e.time ≤ c.last) (r r' : Registry) {x : Call}
    (hx : ∀ last (b : σ), (Entry.call last b x).reset? = some e)
    (hs : ((({ c with tasks := es } : Core σ).call B r x).call B r' (.sendTaskEvent e)).Straight) :
    ((({ c with tasks := es } : Core σ).call B r x).call B r' (.sendTaskEvent e)).Resets where
  straight := hs
  bounded e' he' := by
    rw [call_trace, call_trace, resets_append, resets_append] at he'
    rcases List.mem_append.1 he' with he' | he'
    · rcases List.mem_append.1 he' with he' | he'
      · exact h.bounded e' he'
      · obtain ⟨y, hy, hye⟩ := List.mem_filterMap.1 he'
        rw [List.mem_singleton.1 hy, hx] at hye
        cases hye
        exact hlast
    · cases he'
  next := by
    refine History.always_snoc.2 ⟨History.always_snoc.2 ⟨h.next, fun e' he' => ?_⟩, fun e' he' => by cases he'⟩
    rw [hx] at he'
    cases he'
    refine ⟨hreplaces, es, ?_⟩
    rw [← he]
    exact h.straight.tasks.symm

theorem Move.resets {late : Bool} {c c' : Core σ} (h : Move B late c c') (htime : InTime (arrivals c'.trace))
    (hc : c.Resets) : c'.Resets := by
  cases h with
  | arrive event =>
    exact hc.quiet (hc.straight.arrive event htime) (by rw [arrive_last]; exact Std.le_refl _) [.arrived event]
      (arrive_trace c event) (by simp [Entry.reset?])
  | step h =>
    rw [h.arrivals] at htime
    have hs := h.straight htime hc.straight
    cases h with
    | sort => exact hc.quiet hs (Std.le_refl _) [] (by simp [Core.sort]) (by simp)
    | note r x hx =>
      exact hc.quiet hs (Std.le_refl _) [.call c.last c.back x] rfl (by simpa using reset?_of_note hx c.last c.back)
    | resolve string => exact hc.quiet hs (Std.le_refl _) [] (by simp) (by simp)
    | advance s hmem hlast => exact hc.quiet hs hlast [] (by simp) (by simp)
    | forward r m ms id hm hlast htasks => exact hc.quiet hs (Std.le_refl _) [_] rfl (by simp [Entry.reset?])
    | forked r r' e es parentPid he hf hlast hmmaps =>
      exact hc.replace he (by simp [TaskEvent.replacesMap, hf]) hlast r r' (fun _ _ => rfl) hs
    | ended r r' e es he hf hd hlast =>
      exact hc.replace he (by simp [TaskEvent.replacesMap, hd]) hlast r r' (fun _ _ => rfl) hs
    | plain r e es he hf hd hlast => exact hc.quiet hs (Std.le_refl _) [_] rfl (by simp [Entry.reset?])
    | analyze r s ss hmem hlast hnow hmmaps htasks =>
      exact hc.quiet hs (Std.le_refl _) [_] rfl (by simp [Entry.reset?])
    | leave size desired => exact hc.quiet hs (Std.le_refl _) [_] rfl (by simp [Entry.reset?])
    | trail r e es waiting size desired he hmark hdue =>
      exact hc.quiet hs (Std.le_refl _) [_] rfl (by simp [Entry.reset?])

/-- **A sample finds its mmaps**, where the forks and exits before it were applied in order. -/
theorem Resets.mapsReflect {c : Core SymbolTables} (h : c.Resets) (hreplays : c.Replays H)
    (happlied : Always AppliedInOrder c.trace) {s : PerfRecordSample} (hnow : s.time = c.last)
    (hmmaps : ∀ m ∈ c.mmaps, s.time < m.time) : MapsReflect H c.trace (.call c.last c.back (.analyze s)) := by
  intro before m after harrivals hpid htime hafter
  have hsplit : registered c.trace ++ c.mmaps =
      before.filterMap Event.mmap? ++ m :: after.filterMap Event.mmap? := by
    rw [h.straight.mmaps, arrivedMmaps, harrivals, List.filterMap_append]
    rfl
  have hwaits : m ∉ c.mmaps := fun hm => absurd (hmmaps m hm) (UInt64.not_lt.2 htime)
  obtain ⟨later, hregistered, hlater⟩ : ∃ later, registered c.trace = before.filterMap Event.mmap? ++ m :: later ∧
      after.filterMap Event.mmap? = later ++ c.mmaps := by
    rcases List.append_eq_append_iff.1 hsplit with ⟨as, -, hm⟩ | ⟨bs, hbs, hm⟩
    · exact absurd (by rw [hm]; exact List.mem_append_right _ List.mem_cons_self) hwaits
    · cases bs with
      | nil =>
        exact absurd (by rw [← show m :: after.filterMap Event.mmap? = c.mmaps from hm]; exact List.mem_cons_self) hwaits
      | cons x later =>
        obtain ⟨rfl, hlater⟩ := List.cons.inj hm
        exact ⟨later, hbs, hlater⟩
  obtain ⟨p, last, b, id, q, ht, hp, hq⟩ := split_registered hregistered
  have hkept : ∀ e ∈ resets (.call last b (.registerElf m id) :: q), e.pid ≠ m.pid := by
    intro e he hepid
    obtain ⟨y, hy, hye⟩ := List.mem_filterMap.1 (show e ∈ resets q from he)
    obtain ⟨q₁, q₂, rfl⟩ := List.append_of_mem hy
    have hpre : c.trace = (p ++ .call last b (.registerElf m id) :: q₁) ++ y :: q₂ := by rw [ht]; simp
    have hregistered' : registered (p ++ .call last b (.registerElf m id) :: q₁) =
        before.filterMap Event.mmap? ++ m :: registered q₁ := by
      rw [registered_append, hp]
      rfl
    obtain ⟨hreplaces, es, hes⟩ := h.next _ y q₂ hpre e hye
    obtain ⟨rest, hrest⟩ := eq_eventsBefore _ hes
    have horder := happlied _ y q₂ hpre e hye m
    rw [hregistered'] at horder
    -- the fork or exit stands behind the mmap, for the mmap is already registered
    have hlt : (before.filterMap Event.mmap?).length < ((eventsBefore (sent (p ++ .call last b (.registerElf m id) ::
        q₁)).length (arrivals (p ++ .call last b (.registerElf m id) :: q₁))).filterMap Event.mmap?).length := by
      by_contra hle
      refine horder ?_ hepid.symm
      rw [List.drop_append_of_le_length (Nat.le_of_not_lt hle)]
      exact List.mem_append_right _ List.mem_cons_self
    have harrivals' := harrivals
    rw [hpre, arrivals_append, hrest, List.append_assoc, List.cons_append] at harrivals'
    have hlate := hafter e (mem_after harrivals' hlt) (hepid.trans hpid) hreplaces
    have hbound := h.bounded e (by rw [ht, resets_append]; exact List.mem_append_right _ he)
    exact absurd hlate (UInt64.not_lt.2 (Std.le_trans hbound (Std.le_of_eq hnow.symm)))
  refine ⟨p, last, b, id, q, ht, ⟨c.mmaps, by rw [hq, ← hlater]⟩, ?_⟩
  rw [hreplays m.pid p last b _ q ht hkept]
  simp [registrations, Entry.registration?]

/-- What holds of the maps along a run in time. -/
structure Maps (H : Host) (c : Core SymbolTables) : Prop where
  resets : c.Resets
  replays : c.Replays H
  reflect : Always AppliedInOrder c.trace → Always (MapsReflect H) c.trace

theorem mapsReflect_of_note {x : Call} (hx : x.isNote = true) (last : UInt64) (s : SymbolTables)
    (pre : List (Entry SymbolTables)) : MapsReflect H pre (.call last s x) := by
  cases x with
  | analyze sample => cases hx
  | _ => trivial

theorem Move.maps {c c' : Core SymbolTables} (h : Move (backend H) false c c')
    (htime : InTime (PerfParser.arrivals c'.trace)) (hc : c.Maps H) : c'.Maps H := by
  refine ⟨h.resets htime hc.resets, h.replays hc.replays, fun happlied => ?_⟩
  have hpre := happlied.of_prefix h.trace_prefix
  have hreflect := hc.reflect hpre
  cases h with
  | arrive event =>
    rw [arrive_trace]
    exact History.always_snoc.2 ⟨hreflect, trivial⟩
  | step h =>
    cases h with
    | sort => exact hreflect
    | note r x hx => exact History.always_snoc.2 ⟨hreflect, mapsReflect_of_note hx _ _ _⟩
    | resolve string => exact hreflect
    | advance s hs hlast => exact hreflect
    | forward r m ms id hm hlast htasks => exact History.always_snoc.2 ⟨hreflect, trivial⟩
    | forked r r' e es parentPid he hf hlast hmmaps =>
      exact History.always_snoc.2 ⟨History.always_snoc.2 ⟨hreflect, trivial⟩, trivial⟩
    | ended r r' e es he hf hd hlast =>
      exact History.always_snoc.2 ⟨History.always_snoc.2 ⟨hreflect, trivial⟩, trivial⟩
    | plain r e es he hf hd hlast => exact History.always_snoc.2 ⟨hreflect, trivial⟩
    | analyze r s ss hs hlast hnow hmmaps htasks =>
      exact History.always_snoc.2 ⟨hreflect, hc.resets.mapsReflect hc.replays hpre
        (hnow.resolve_left Bool.false_ne_true) hmmaps⟩
    | leave size desired => exact History.always_snoc.2 ⟨hreflect, trivial⟩
    | trail r e es waiting size desired he hmark hdue => exact History.always_snoc.2 ⟨hreflect, trivial⟩

theorem Moves.maps {c c' : Core SymbolTables} (h : Moves (backend H) false c c')
    (htime : InTime (PerfParser.arrivals c'.trace)) (hc : c.Maps H) : c'.Maps H := by
  induction h with
  | refl => exact hc
  | tail _ h ih => exact h.maps htime (ih (htime.of_prefix (h.trace_prefix.filterMap _)))

end Core

namespace PerfUnwind

open SymbolTables

/-- **In a run in time every sample finds the mmaps of its process**, where no fork or exit comes after an mmap of its
process that arrived after it. -/
theorem run_mapsReflect (H : Host) (lastSize maxSize targetSize : UInt32) (ops : List Op)
    (htime : InTime ((create {} lastSize maxSize targetSize).passed (backend H) ops))
    (happlied : Always AppliedInOrder ((create {} lastSize maxSize targetSize).run (backend H) ops).trace) :
    Always (MapsReflect H) ((create {} lastSize maxSize targetSize).run (backend H) ops).trace := by
  have hmoves := run_moves_inTime (B := backend H) {} lastSize maxSize targetSize ops htime
  rw [← create_arrivals] at htime
  refine (hmoves.maps htime ⟨⟨⟨rfl, rfl, rfl, by simp [create, core, view]⟩, by simp [create, core, view],
    History.always_nil⟩, ?_, fun _ => History.always_nil⟩).reflect happlied
  intro pid p last b x q hsplit
  cases p <;> cases hsplit

def sampleOf (time : UInt64) (pid : Int32) : PerfRecordSample where
  toPerfRecord := { recordAt time with sampleId := { time := time, pid := pid } }

theorem run_mapsReflect_later : Always (MapsReflect noFiles) ((create {} 0 1024 1024).run (backend noFiles)
    [forkOp 1 2 1, mmapOp 2 2, .sample (sampleOf 3 2), .finalize]).trace :=
  run_mapsReflect noFiles 0 1024 1024 _ (by decide) (by decide)

/-- A fork and an mmap of the child after it, all at one time: the mmap is registered before the fork, which overwrites
it. -/
theorem run_forgets : ¬∀ ops : List Op, InTime ((create {} 0 1024 1024).passed (backend noFiles) ops) →
    Always (MapsReflect noFiles) ((create {} 0 1024 1024).run (backend noFiles) ops).trace := by
  intro h
  let fork : TaskEvent := { pid := 2, tid := 2, time := 0, cpu := 0, type := .threadStart 1 }
  let mmap : PerfRecordMmap := { toPerfRecord := recordAt 0, pid := 2, addr := 0x1000, len := 0x1000 }
  let registered₂ : SymbolTables := SymbolTables.registerElf noFiles {} mmap []
  let forked₂ : SymbolTables := registered₂.initAfterFork 2 1
  obtain ⟨p, last, b, id, q, -, hq, hmap⟩ := h [forkOp 0 2 1, mmapOp 0 2, .sample (sampleOf 0 2), .finalize] (by decide)
    [.arrived (.task fork), .arrived (.mmap mmap), .arrived (.sample (sampleOf 0 2)),
      .call 0 {} (.registerElf mmap []), .call 0 registered₂ (.initAfterFork fork 1),
      .call 0 forked₂ (.sendTaskEvent fork)]
    (.call 0 forked₂ (.analyze (sampleOf 0 2))) [.trailing [] 0 0] (by with_unfolding_all rfl)
    [.task fork] mmap [.sample (sampleOf 0 2)] rfl rfl (by decide) (by simp)
  rw [registrations_eq_nil (List.prefix_nil.1 hq)] at hmap
  have hnil : (forked₂.map 2).elfs = [] := by decide
  rw [show forked₂.map 2 = _ from hmap] at hnil
  exact PerfElfMap.registerElf_ne_nil _ _ hnil

end PerfUnwind

end PerfParser
