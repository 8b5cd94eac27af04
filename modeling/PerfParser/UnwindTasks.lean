import PerfParser.UnwindDrain
/-!
# UnwindTasks — forks and exits between samples, and after them

Between samples a fork copies the symbol table of its parent and an exit drops one; the loop that sends the task events
left after the samples does neither.  So both are prepared where that loop sends none of them, and the mmaps of a
process that has ended stay away where none of them still waits when it ends.
-/
namespace PerfParser

open StableSort (classOf)
open History (Always)

namespace Core

variable {σ : Type} {B : Backend σ}

theorem Move.trace_prefix {late : Bool} {c c' : Core σ} (h : Move B late c c') : c.trace <+: c'.trace := by
  cases h with
  | arrive event => exact ⟨[.arrived event], (arrive_trace c event).symm⟩
  | step h =>
    cases h with
    | sort => exact List.prefix_refl _
    | note r x hx => exact List.prefix_append _ _
    | resolve string => exact List.prefix_refl _
    | advance s hs hlast => exact List.prefix_refl _
    | forward r m ms id hm hlast htasks => exact List.prefix_append _ _
    | forked r r' e es parentPid he hf hlast hmmaps => exact (List.prefix_append _ _).trans (List.prefix_append _ _)
    | ended r r' e es he hf hd hlast => exact (List.prefix_append _ _).trans (List.prefix_append _ _)
    | plain r e es he hf hd hlast => exact List.prefix_append _ _
    | analyze r s ss hs hlast hnow hmmaps htasks => exact List.prefix_append _ _
    | leave size desired => exact List.prefix_append _ _
    | trail r e es waiting size desired he hmark hdue => exact List.prefix_append _ _

end Core

/-! ## Forks and exits are prepared -/

/-- What has been called right before a task event is sent: the table of a forked process is initialised, after the
mmaps up to the fork, and the table of a process that ends is dropped. -/
def Prepared {σ : Type} (pre : List (Entry σ)) : Entry σ → Prop
  | .call _ _ (.sendTaskEvent e) =>
    (∀ parentPid, e.forkedFrom = some parentPid → ∃ pre' last b,
      pre = pre' ++ [.call last b (.initAfterFork e parentPid)] ∧ ∀ t ≤ e.time,
        classOf (fun m : PerfRecordMmap => m.time) t (registered pre') =
          classOf (fun m : PerfRecordMmap => m.time) t (arrivedMmaps pre')) ∧
    (e.endsProcess = true → ∃ pre' last b, pre = pre' ++ [.call last b (.dropSymbolTable e)])
  | _ => True

/-- The loop over the task events left after the samples starts no process and ends none. -/
def PlainTrailing {σ : Type} : Entry σ → Prop
  | .trailing waiting size desired => ∀ e ∈ due desired size waiting, e.forkedFrom = none ∧ e.endsProcess = false
  | _ => True

instance {σ : Type} : DecidablePred (@PlainTrailing σ)
  | .trailing waiting size desired =>
    inferInstanceAs (Decidable (∀ e ∈ due desired size waiting, e.forkedFrom = none ∧ e.endsProcess = false))
  | .arrived _ => isTrue trivial
  | .call _ _ _ => isTrue trivial

theorem TaskEvent.endsProcess_of_forked {e : TaskEvent} {parentPid : Int32} (h : e.forkedFrom = some parentPid) :
    e.endsProcess = false := by
  unfold forkedFrom at h
  unfold endsProcess
  cases ht : e.type with
  | threadEnd => rw [ht] at h; cases h
  | _ => simp

theorem prepared_plain {σ : Type} {e : TaskEvent} (hf : e.forkedFrom = none) (hd : e.endsProcess = false)
    (pre : List (Entry σ)) (last : UInt64) (b : σ) : Prepared pre (.call last b (.sendTaskEvent e)) := by
  constructor
  · intro parentPid h
    cases hf.symm.trans h
  · intro h
    cases hd.symm.trans h

namespace Core

variable {σ : Type} {B : Backend σ}

/-- The task events along a run whose trailing loops are plain. -/
structure TasksPrepared (c : Core σ) : Prop where
  queues : c.Queues
  prepared : (∀ x ∈ c.trace, PlainTrailing x) → Always Prepared c.trace

theorem Move.tasksPrepared {late : Bool} {c c' : Core σ} (h : Move B late c c') (ht : c.TasksPrepared) :
    c'.TasksPrepared := by
  refine ⟨h.queues ht.queues, fun hplain => ?_⟩
  have hpre := ht.prepared (fun x hx => hplain x (h.trace_prefix.subset hx))
  cases h with
  | arrive event =>
    rw [arrive_trace]
    exact History.always_snoc.2 ⟨hpre, trivial⟩
  | step h =>
    cases h with
    | sort => exact hpre
    | note r x hx =>
      refine History.always_snoc.2 ⟨hpre, ?_⟩
      cases x with
      | sendTaskEvent e => cases hx
      | _ => trivial
    | resolve string => exact hpre
    | advance s hs hlast => exact hpre
    | forward r m ms id hm hlast htasks => exact History.always_snoc.2 ⟨hpre, trivial⟩
    | forked r r' e es parentPid he hf hlast hmmaps =>
      refine History.always_snoc.2 ⟨History.always_snoc.2 ⟨hpre, trivial⟩, fun parentPid' hf' => ?_, fun hd => ?_⟩
      · cases hf.symm.trans hf'
        exact ⟨c.trace, c.last, c.back, rfl, fun t htime => ht.queues.mmaps.classOf_eq _
          (fun m hm heq => UInt64.not_lt.2 (heq ▸ htime) (hmmaps m hm))⟩
      · rw [TaskEvent.endsProcess_of_forked hf] at hd
        cases hd
    | ended r r' e es he hf hd hlast =>
      refine History.always_snoc.2 ⟨History.always_snoc.2 ⟨hpre, trivial⟩, fun parentPid hf' => ?_, fun _ => ?_⟩
      · cases hf.symm.trans hf'
      · exact ⟨c.trace, c.last, c.back, rfl⟩
    | plain r e es he hf hd hlast => exact History.always_snoc.2 ⟨hpre, prepared_plain hf hd _ _ _⟩
    | analyze r s ss hs hlast hnow hmmaps htasks => exact History.always_snoc.2 ⟨hpre, trivial⟩
    | leave size desired => exact History.always_snoc.2 ⟨hpre, trivial⟩
    | trail r e es waiting size desired he hmark hdue =>
      -- the loop this event is sent by is logged, and plain
      obtain ⟨hf, hd⟩ := hplain (.trailing waiting size desired) (List.mem_append_left _ hmark) e hdue
      exact History.always_snoc.2 ⟨hpre, prepared_plain hf hd _ _ _⟩

end Core

namespace PerfUnwind

variable {σ : Type} {B : Backend σ}

/-- **Every fork and every exit is prepared when it is sent**, where the loops after the samples send none. -/
theorem run_prepared (B : Backend σ) (back : σ) (lastSize maxSize targetSize : UInt32) (ops : List Op)
    (hplain : ∀ x ∈ ((create back lastSize maxSize targetSize).run B ops).trace, PlainTrailing x) :
    Always Prepared ((create back lastSize maxSize targetSize).run B ops).trace :=
  (run_invariant Core.Move.tasksPrepared back lastSize maxSize targetSize
    ⟨create_queues back lastSize maxSize targetSize, fun _ => History.always_nil⟩ ops).prepared hplain

/-- A record of an event at a time, of the smallest size. -/
def recordAt (time : UInt64) : PerfRecord where
  header := { size := 8 }
  sampleId := { time := time }

def forkOp (time : UInt64) (childPid parentPid : Int32) : Op :=
  .fork { toPerfRecord := recordAt time, childPid := childPid, parentPid := parentPid, childTid := childPid }

def exitOp (time : UInt64) (pid : Int32) : Op := .exit { toPerfRecord := recordAt time, childPid := pid, childTid := pid }

def mmapOp (time : UInt64) (pid : Int32) : Op :=
  .registerElf { toPerfRecord := recordAt time, pid := pid, addr := 0x1000, len := 0x1000 }

theorem run_prepared_beforeSample : Always Prepared ((create () 0 1024 1024).run discard
    [forkOp 1 2 1, exitOp 2 2, .sample (sampleAt 3), .finalize]).trace :=
  run_prepared discard () 0 1024 1024 _ (by decide)

/-- A fork after the last sample is sent with its table as it was. -/
theorem run_unprepared : ¬∀ ops : List Op, Always Prepared ((create () 0 1024 1024).run discard ops).trace := by
  intro h
  let fork : TaskEvent := { pid := 2, tid := 2, time := 1, cpu := 0, type := .threadStart 1 }
  obtain ⟨hinit, -⟩ := h [forkOp 1 2 1, .finalize] [.arrived (.task fork), .trailing [fork] fork.size 0]
    (.call 0 () (.sendTaskEvent fork)) [] (by with_unfolding_all rfl)
  obtain ⟨pre, last, b, hpre, -⟩ := hinit 1 (by decide)
  have hlast := congrArg List.getLast? hpre
  rw [List.getLast?_concat] at hlast
  cases hlast

end PerfUnwind

/-! ## Mmaps of ended processes -/

/-- The exits processed between samples: each drops the symbol table of its process. -/
def Entry.ended? {σ : Type} : Entry σ → Option TaskEvent
  | .call _ _ (.dropSymbolTable e) => some e
  | _ => none

def ended {σ : Type} (trace : List (Entry σ)) : List TaskEvent := trace.filterMap Entry.ended?

@[simp] theorem ended_append {σ : Type} (t t' : List (Entry σ)) : ended (t ++ t') = ended t ++ ended t' :=
  List.filterMap_append ..

@[simp] theorem ended_nil {σ : Type} : ended ([] : List (Entry σ)) = [] := rfl

@[simp] theorem ended_arrived {σ : Type} (event : Event) (t : List (Entry σ)) : ended (.arrived event :: t) = ended t :=
  rfl

@[simp] theorem ended_trailing {σ : Type} (waiting : List TaskEvent) (size desired : UInt32) (t : List (Entry σ)) :
    ended (.trailing waiting size desired :: t) = ended t := rfl

@[simp] theorem ended_call {σ : Type} (last : UInt64) (b : σ) (x : Call) (t : List (Entry σ)) :
    ended (.call last b x :: t) = (match x with | .dropSymbolTable e => [e] | _ => []) ++ ended t := by
  cases x <;> rfl

theorem ended_of_note {σ : Type} {x : Call} (hx : x.isNote = true) (last : UInt64) (b : σ) :
    ended [Entry.call last b x] = [] := by
  cases x <;> first | rfl | cases hx

/-- An mmap is registered for a process that ended only if it is later than the end. -/
def NotResurrected {σ : Type} (pre : List (Entry σ)) : Entry σ → Prop
  | .call _ _ (.registerElf m _) => ∀ e ∈ ended pre, m.pid = e.pid → e.time < m.time
  | _ => True

theorem notResurrected_of_note {σ : Type} {x : Call} (hx : x.isNote = true) (last : UInt64) (b : σ)
    (pre : List (Entry σ)) : NotResurrected pre (.call last b x) := by
  cases x with
  | registerElf m id => cases hx
  | _ => trivial

/-- No mmap of the process up to its end still waits when the end is processed. -/
def ForwardsFirst {σ : Type} (pre : List (Entry σ)) : Entry σ → Prop
  | .call _ _ (.dropSymbolTable e) =>
    ∀ m ∈ arrivedMmaps pre, m.pid = e.pid → m.time ≤ e.time → m ∈ registered pre
  | _ => True

instance {σ : Type} (pre : List (Entry σ)) : ∀ x, Decidable (ForwardsFirst pre x)
  | .call _ _ (.dropSymbolTable e) => inferInstanceAs (Decidable
      (∀ m ∈ arrivedMmaps pre, m.pid = e.pid → m.time ≤ e.time → m ∈ registered pre))
  | .arrived _ => isTrue trivial
  | .trailing _ _ _ => isTrue trivial
  | .call _ _ (.registerElf _ _) => isTrue trivial
  | .call _ _ (.initAfterFork _ _) => isTrue trivial
  | .call _ _ (.sendTaskEvent _) => isTrue trivial
  | .call _ _ (.analyze _) => isTrue trivial
  | .call _ _ (.sendTimeOrderViolation _ _) => isTrue trivial
  | .call _ _ (.sendAttributes _ _ _) => isTrue trivial
  | .call _ _ (.sendEventFormat _ _) => isTrue trivial
  | .call _ _ (.sendFeatures _) => isTrue trivial

theorem mem_arrivals_of_task {σ : Type} {trace : List (Entry σ)} {e : TaskEvent} (h : e ∈ arrivedTasks trace) :
    Event.task e ∈ arrivals trace := by
  obtain ⟨event, he, ht⟩ := List.mem_filterMap.1 h
  cases event with
  | task e' => cases ht; exact he
  | sample s => cases ht
  | mmap m => cases ht

theorem arrivedMmaps_nodup {σ : Type} {trace : List (Entry σ)}
    (h : (arrivals trace).Pairwise (fun x y => x.time < y.time)) : (arrivedMmaps trace).Nodup := by
  refine List.Pairwise.filterMap _ ?_ h
  intro x y hxy m hm m' hm' heq
  subst heq
  cases x <;> cases y <;> cases hm <;> cases hm'
  exact UInt64.lt_irrefl _ hxy

namespace Core

variable {σ : Type} {B : Backend σ}

theorem Queues.arrived_of_mem_mmaps {c : Core σ} (hq : c.Queues) {m : PerfRecordMmap} (hm : m ∈ c.mmaps) :
    m ∈ arrivedMmaps c.trace := (hq.mmaps.mem_iff _ m).1 (List.mem_append_right _ hm)

/-- An mmap that waits is not registered, where events come at distinct times. -/
theorem Queues.not_registered {c : Core σ} (hq : c.Queues)
    (htimes : (arrivals c.trace).Pairwise (fun x y => x.time < y.time)) {m : PerfRecordMmap} (hm : m ∈ c.mmaps) :
    m ∉ registered c.trace := by
  intro hr
  have hnodup := hq.mmaps.perm.nodup_iff.2 (arrivedMmaps_nodup htimes)
  exact (List.nodup_append'.1 hnodup).2.2 hr hm

/-- The processes that have ended, along a run of events at increasing times whose mmaps are forwarded first. -/
structure EndedApart (c : Core σ) : Prop where
  queues : c.Queues
  arrived : ∀ e ∈ ended c.trace, e ∈ arrivedTasks c.trace
  apart : ∀ e ∈ ended c.trace, ∀ m ∈ c.mmaps, m.pid = e.pid → e.time < m.time
  registers : Always NotResurrected c.trace

theorem EndedApart.quiet {c c' : Core σ} (h : c.EndedApart) (hq : c'.Queues) (t : List (Entry σ))
    (ht : c'.trace = c.trace ++ t) (he : ended t = []) (hm : ∀ m ∈ c'.mmaps, m ∈ c.mmaps)
    (hr : ∀ x ∈ t, ∀ pre, NotResurrected pre x) : c'.EndedApart where
  queues := hq
  arrived e hmem := by
    rw [ht, ended_append, he, List.append_nil] at hmem
    rw [ht, arrivedTasks_append]
    exact List.mem_append_left _ (h.arrived e hmem)
  apart e hmem m hmm := by
    rw [ht, ended_append, he, List.append_nil] at hmem
    exact h.apart e hmem m (hm m hmm)
  registers := by
    rw [ht]
    exact History.always_append h.registers (fun pre x post hx => hr x (by rw [hx]; simp) _)

/-- An mmap that arrives is later than every process that has ended. -/
theorem EndedApart.arrive {c : Core σ} (h : c.EndedApart) (event : Event)
    (htimes : (arrivals (c.arrive event).trace).Pairwise (fun x y => x.time < y.time))
    (hq : (c.arrive event).Queues) : (c.arrive event).EndedApart where
  queues := hq
  arrived e he := by
    rw [arrive_trace] at he ⊢
    rw [arrivedTasks_append]
    exact List.mem_append_left _ (h.arrived e (by simpa using he))
  apart e he m hm hpid := by
    rw [arrive_trace, ended_append, ended_arrived, ended_nil, List.append_nil] at he
    rw [arrive_trace, arrivals_append] at htimes
    rw [arrive_mmaps] at hm
    cases event with
    | mmap m' =>
      rcases List.mem_append.1 hm with hm | hm
      · exact h.apart e he m hm hpid
      · cases List.mem_singleton.1 hm
        exact (List.pairwise_append.1 htimes).2.2 _ (mem_arrivals_of_task (h.arrived e he)) (.mmap m)
          (List.mem_singleton_self _)
    | sample s => exact h.apart e he m hm hpid
    | task e' => exact h.apart e he m hm hpid
  registers := by
    rw [arrive_trace]
    exact History.always_snoc.2 ⟨h.registers, trivial⟩

theorem Move.endedApart {late : Bool} {c c' : Core σ} (h : Move B late c c')
    (htimes : (arrivals c'.trace).Pairwise (fun x y => x.time < y.time)) (hforwards : Always ForwardsFirst c'.trace)
    (hi : c.EndedApart) : c'.EndedApart := by
  have hq := h.queues hi.queues
  cases h with
  | arrive event => exact hi.arrive event htimes hq
  | step h =>
    rw [h.arrivals] at htimes
    cases h with
    | sort => exact hi.quiet hq [] (by simp [Core.sort]) rfl (by simp [Core.sort]) (by simp)
    | note r x hx =>
      refine hi.quiet hq [.call c.last c.back x] rfl (ended_of_note hx _ _) (fun _ hm => hm) ?_
      simpa using notResurrected_of_note hx c.last c.back
    | resolve string => exact hi.quiet hq [] (by simp) rfl (fun _ hm => hm) (by simp)
    | advance s hs hlast => exact hi.quiet hq [] (by simp) rfl (fun _ hm => hm) (by simp)
    | forward r m ms id hm hlast htasks =>
      refine ⟨hq, ?_, ?_, History.always_snoc.2 ⟨hi.registers, fun e he hpid => hi.apart e he m (by simp [hm]) hpid⟩⟩
      · simpa using! hi.arrived
      · simp only [call_trace, ended_append, ended_call, ended_nil, List.append_nil]
        exact fun e he m' hm' => hi.apart e he m' (by rw [hm]; exact List.mem_cons_of_mem _ hm')
    | forked r r' e es parentPid he hf hlast hmmaps =>
      exact hi.quiet hq _ (List.append_assoc _ _ _) rfl (fun _ hm => hm) (by simp [NotResurrected])
    | ended r r' e es he hf hd hlast =>
      have hfirst : ForwardsFirst c.trace (.call c.last c.back (.dropSymbolTable e)) :=
        hforwards c.trace _ [_] (List.append_assoc _ _ _)
      have harrived : e ∈ arrivedTasks c.trace :=
        (hi.queues.tasks.mem_iff _ e).1 (List.mem_append_right _ (by rw [he]; exact List.mem_cons_self))
      refine ⟨hq, ?_, ?_, ?_⟩
      · simp only [call_trace, ended_append, ended_call, ended_nil, List.append_nil, List.mem_append,
          List.mem_singleton, arrivedTasks_append, arrived_call, nil_trace]
        rintro e' (he' | rfl)
        · exact hi.arrived e' he'
        · exact harrived
      · simp only [call_trace, ended_append, ended_call, ended_nil, List.append_nil, List.mem_append,
          List.mem_singleton]
        rintro e' (he' | rfl) m hm hpid
        · exact hi.apart e' he' m hm hpid
        · by_contra hlt
          -- the mmap would be registered and still wait
          exact hi.queues.not_registered htimes hm
            (hfirst m (hi.queues.arrived_of_mem_mmaps hm) hpid (UInt64.not_lt.1 hlt))
      · exact History.always_snoc.2 ⟨History.always_snoc.2 ⟨hi.registers, trivial⟩, trivial⟩
    | plain r e es he hf hd hlast =>
      exact hi.quiet hq [_] rfl rfl (fun _ hm => hm) (by simp [NotResurrected])
    | analyze r s ss hs hlast hnow hmmaps htasks =>
      exact hi.quiet hq [_] rfl rfl (fun _ hm => hm) (by simp [NotResurrected])
    | leave size desired => exact hi.quiet hq [_] rfl rfl (fun _ hm => hm) (by simp [NotResurrected])
    | trail r e es waiting size desired he hmark hdue =>
      exact hi.quiet hq [_] rfl rfl (fun _ hm => hm) (by simp [NotResurrected])

/-- **Along a run the mmaps of ended processes stay away.** -/
theorem Moves.endedApart {late : Bool} {c c' : Core σ} (h : Moves B late c c')
    (htimes : (arrivals c'.trace).Pairwise (fun x y => x.time < y.time)) (hforwards : Always ForwardsFirst c'.trace)
    (hi : c.EndedApart) : c'.EndedApart := by
  induction h with
  | refl => exact hi
  | tail _ h ih =>
    have hfront := h.trace_prefix
    exact h.endedApart htimes hforwards (ih (htimes.sublist (List.IsPrefix.filterMap _ hfront).sublist)
      (hforwards.of_prefix hfront))

end Core

namespace PerfUnwind

variable {σ : Type} {B : Backend σ}

/-- **No mmap of an ended process is registered after its end**, where every exit between samples finds the mmaps of its
process up to it registered. -/
theorem run_notResurrected (B : Backend σ) (back : σ) (lastSize maxSize targetSize : UInt32) (ops : List Op)
    (htimes : ((create back lastSize maxSize targetSize).passed B ops).Pairwise (fun x y => x.time < y.time))
    (hforwards : Always ForwardsFirst ((create back lastSize maxSize targetSize).run B ops).trace) :
    Always NotResurrected ((create back lastSize maxSize targetSize).run B ops).trace := by
  rw [← create_arrivals] at htimes
  have hmoves := (run_moves (B := B) ops (u := create back lastSize maxSize targetSize) rfl).2.1
  exact (hmoves.endedApart htimes hforwards ⟨create_queues back lastSize maxSize targetSize, by
    simp [create, core, view], by simp [create, core, view], History.always_nil⟩).registers

theorem run_notResurrected_reused : Always NotResurrected ((create () 0 1024 1024).run discard
    [mmapOp 1 2, .sample (sampleAt 2), exitOp 3 2, mmapOp 4 2, .sample (sampleAt 5), .finalize]).trace :=
  run_notResurrected discard () 0 1024 1024 _ (by decide) (by decide)

/-- An mmap between the last sample and the exit comes back for the sample after it. -/
theorem run_resurrected : ¬∀ ops : List Op,
    ((create () 0 1024 1024).passed discard ops).Pairwise (fun x y => x.time < y.time) →
    Always NotResurrected ((create () 0 1024 1024).run discard ops).trace := by
  intro h
  let exit : TaskEvent := { pid := 2, tid := 2, time := 2, cpu := 0, type := .threadEnd }
  let mmap : PerfRecordMmap := { toPerfRecord := recordAt 1, pid := 2, addr := 0x1000, len := 0x1000 }
  have hlt := h [mmapOp 1 2, exitOp 2 2, .sample (sampleAt 3), .finalize] (by decide)
    [.arrived (.mmap mmap), .arrived (.task exit), .arrived (.sample (sampleAt 3)),
      .call 3 () (.dropSymbolTable exit), .call 3 () (.sendTaskEvent exit)]
    (.call 3 () (.registerElf mmap [])) [.call 3 () (.analyze (sampleAt 3)), .trailing [] 0 0]
    (by with_unfolding_all rfl) exit (by simp) rfl
  exact absurd hlt (by decide)

end PerfUnwind

end PerfParser
