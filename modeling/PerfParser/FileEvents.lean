import PerfParser.ReadDevices
import PerfParser.FinishReading
import PerfParser.FeatureSections
/-!
# FileEvents — the events of a file (`PerfData::doRead`)

The events of a file are those that start in its data section.  Nothing keeps an event from reading on behind the section,
where the features are.  Where none does (`FramedIn`), the file is read like a stream of its data section, however that
arrives (`readFile_stream`).
-/
namespace PerfParser
namespace PerfData

open QDataStream Reader

variable {δ : Type} (E : Env δ) {depth : Nat} {r r' : Reading δ} {st : ReadStatus}

/-- The loop of `doRead` over the events that start before the end of the data section. -/
def readSectionEvents (depth : Nat) (endOfDataSection : Int) : Nat → Nat → Reading δ → ReadStatus × Reading δ
  | 0, _, r => (.SignalFinished, r)
  | fuel + 1, pos, r =>
    if pos < endOfDataSection then
      match processEvents E depth false r with
      | (.SignalFinished, r') => readSectionEvents depth endOfDataSection fuel (pos + (r.unread.length - r'.unread.length)) r'
      | (_, r') => (.SignalError, r')
    else (.SignalFinished, r)

/-- `PerfData::doRead` of a file, but for the progress it sends. -/
def doReadFile (depth : Nat) (h : PerfHeader) (f : QFile) (d : PerfData δ) : ReadStatus × PerfData δ :=
  match f.seek h.data.offset.toInt with
  | none => (.SignalError, d)
  | some f =>
    let (returnCode, r) := readSectionEvents E depth (h.data.offset + h.data.size).toInt (f.unread.length + 2) f.pos
      ⟨d, f.unread⟩
    (returnCode, r.data)

/-- `PerfData::read` of a file, with the signal it emits. -/
def readFile (depth : Nat) (h : PerfHeader) (f : QFile) (d : PerfData δ) : Option Signal × PerfData δ :=
  match doReadFile E depth h f d with
  | (.SignalFinished, d) => (some .finished, d)
  | (.SignalError, d) => (some .error, d)
  | (.Rerun, d) => (none, d)

/-! ## Events that end in the section -/

/-- The event takes all of its content from the file, and nothing else. -/
structure TakesAll (depth : Nat) (r : Reading δ) : Prop where
  notLess : ¬LeavesSome E r
  notMore : ∀ r', processEvents E depth true r = (.SignalFinished, r') → TakesContent E (started E r) r'.unread

/-- The section is read to its end by events that take what they announce of the file with `more` behind the section, or
up to one that the parser reports an error for. -/
inductive FramedIn (depth : Nat) (more : QByteArray) : Reading δ → Prop
  | done {r : Reading δ} : r.unread = [] → FramedIn depth more r
  | event {r r' : Reading δ} : r.unread ≠ [] → processEvents E depth true r = (.SignalFinished, r') →
      TakesAll E depth (r.append more) → FramedIn depth more r' → FramedIn depth more r
  | error {r r' : Reading δ} : r.unread ≠ [] → processEvents E depth true r = (.SignalError, r') →
      TakesAll E depth (r.append more) → FramedIn depth more r

variable {E} {more : QByteArray}

/-- An event that ends in the section is read in the file as if nothing was behind the section. -/
theorem TakesAll.processEvents (htakes : TakesAll E depth (r.append more))
    (h : PerfData.processEvents E depth true r = (st, r')) (hst : st ≠ .Rerun) :
    PerfData.processEvents E depth true (r.append more) = (st, r'.append more) ∧
      PerfData.processEvents E depth false (r.append more) = (st, r'.append more) := by
  have happend : PerfData.processEvents E depth true (r.append more) = (st, r'.append more) := by
    have hmore := htakes.notMore
    obtain ⟨nested, hnested⟩ := exists_nested E depth
    rw [hnested] at h hmore ⊢
    exact processEvent_append E h hst hmore
  exact ⟨happend, (processEvents_devices E).2 htakes.notLess ▸ happend⟩

/-- An event that was read had all of its content there. -/
theorem content_of_finished (h : PerfData.processEvents E depth true r = (.SignalFinished, r')) :
    (r.data.eventHeader.size = 0 → 8 ≤ r.unread.length) ∧
      (started E r).data.eventHeader.contentSize ≤ (started E r).unread.length := by
  obtain ⟨nested, hnested⟩ := exists_nested E depth
  rw [hnested] at h
  have hlen : r.data.eventHeader.size = 0 → 8 ≤ r.unread.length := fun h0 => by
    by_contra hlt
    rw [processEvent_of_short E h0 (by omega)] at h
    cases (Prod.mk.inj h).1
  have hgood : r.data.eventHeader.size = 0 →
      8 ≤ r.unread.length ∧ ¬(started E r).data.eventHeader.size < PerfEventHeader.fixedLength := by
    refine fun h0 => ⟨hlen h0, fun hlt => ?_⟩
    rw [processEvent_of_bad E h0 (hlen h0) hlt] at h
    cases (Prod.mk.inj h).1
  refine ⟨hlen, ?_⟩
  by_contra hlt
  rw [processEvent_of_started E hgood, processContent_of_short E (by omega)] at h
  cases (Prod.mk.inj h).1

theorem takesContent_of_append (h : PerfData.processEvents E depth true r = (.SignalFinished, r'))
    (htakes : TakesContent E (started E (r.append more)) (r'.append more).unread) :
    TakesContent E (started E r) r'.unread := by
  obtain ⟨hlen, hcontent⟩ := content_of_finished h
  rw [started_append E hlen] at htakes
  unfold TakesContent at htakes ⊢
  by_cases htr : isTracing (started E r)
  · rw [if_pos htr]
    rw [if_pos (show isTracing ((started E r).append more) from htr)] at htakes
    intro h0
    have hfour := htakes h0
    rwa [apply_readTracingSize_append E htr hcontent h0] at hfour
  · rw [if_neg htr]
    rw [if_neg (show ¬isTracing ((started E r).append more) from htr), Reading.append_unread, Reading.append_unread,
      List.length_append, List.length_append, Reading.append_data] at htakes
    omega

theorem FramedIn.framed (h : FramedIn E depth more r) : Framed E depth r := by
  induction h with
  | done hnil => exact .done hnil
  | event hne hp htakes _ ih =>
    have hfile := (htakes.processEvents hp (by decide)).1
    exact .event hne hp (takesContent_of_append hp (htakes.notMore _ hfile)) ih
  | error hne hp _ => exact .error hne hp

theorem readAll_ne_rerun (h : FramedIn E depth more r) : (readAll E depth true r).1 ≠ .Rerun := by
  induction h with
  | done hnil =>
    rw [readAll_nil E hnil]
    exact nofun
  | event hne hp _ _ ih => rwa [readAll_finished E hne hp]
  | error hne hp _ =>
    rw [readAll_failed E hne hp (by decide)]
    exact nofun

/-- **The loop over the section** stops where the section does. -/
theorem readSectionEvents_eq {endOfDataSection : Int} (h : FramedIn E depth more r) : ∀ (fuel pos : Nat),
    pos + r.unread.length = endOfDataSection → iterations r ≤ fuel →
    readSectionEvents E depth endOfDataSection fuel pos (r.append more) =
      ((readAll E depth true r).1, (readAll E depth true r).2.append more) := by
  induction h with
  | @done r hnil =>
    intro fuel pos hend _
    rw [hnil, List.length_nil] at hend
    rw [readAll_nil E hnil]
    cases fuel with
    | zero => rfl
    | succ fuel => exact if_neg (by omega)
  | @event r r' hne hp htakes _ ih =>
    intro fuel pos hend hfuel
    have hpos := List.length_pos_of_ne_nil hne
    cases fuel with
    | zero =>
      unfold iterations at hfuel
      omega
    | succ fuel =>
      have hfile := (htakes.processEvents hp (by decide)).2
      have hfinished : r'.data.eventHeader.size = 0 ∧
          r'.unread.length + (if r.data.eventHeader.size = 0 then 8 else 0) ≤ r.unread.length := by
        obtain ⟨nested, hnested⟩ := exists_nested E depth
        exact processEvent_finished E (hnested ▸ hp)
      obtain ⟨hsize, hle⟩ := hfinished
      rw [readAll_finished E hne hp, readSectionEvents, if_pos (by omega), hfile]
      dsimp only
      rw [Reading.append_unread, Reading.append_unread, List.length_append, List.length_append]
      refine ih fuel _ ?_ ?_
      · omega
      · unfold iterations at hfuel ⊢
        rw [if_pos hsize]
        split at hfuel <;> rename_i h0
        · rw [if_pos h0] at hle
          omega
        · rw [if_neg h0] at hle
          omega
  | @error r r' hne hp htakes =>
    intro fuel pos hend hfuel
    have hpos := List.length_pos_of_ne_nil hne
    cases fuel with
    | zero =>
      unfold iterations at hfuel
      omega
    | succ fuel =>
      rw [readAll_failed E hne hp (by decide), readSectionEvents, if_pos (by omega),
        (htakes.processEvents hp (by decide)).2]

/-! ## A file and a stream -/

/-- No event of the section is left half read. -/
theorem readAll_noHeader (h : FramedIn E depth more r) (h0 : r.data.eventHeader.size = 0)
    (hne : (readAll E depth true r).1 ≠ .SignalError) : (readAll E depth true r).2.data.eventHeader.size = 0 := by
  induction h with
  | done hnil =>
    rw [readAll_nil E hnil]
    exact h0
  | @event r r' hne' hp _ _ ih =>
    have hsize : r'.data.eventHeader.size = 0 := by
      obtain ⟨nested, hnested⟩ := exists_nested E depth
      exact (processEvent_finished E (hnested ▸ hp)).1
    rw [readAll_finished E hne' hp] at hne ⊢
    exact ih hsize hne
  | error hne' hp _ =>
    rw [readAll_failed E hne' hp (by decide)] at hne
    exact absurd rfl hne

/-- What the parser makes of a stream in chunks. -/
theorem close_foldl_feed {d : PerfData δ} (h0 : d.eventHeader.size = 0) (isOpen : Bool) (chunks : List QByteArray)
    (h : FramedIn E depth more ⟨d, chunks.flatten⟩) :
    close E depth isOpen (chunks.foldl (feed E depth) (none, ⟨d, []⟩)) =
        (if (readAll E depth true ⟨d, chunks.flatten⟩).1 = .SignalError then .error else .finished) ∧
      (chunks.foldl (feed E depth) (none, ⟨d, []⟩)).2.data = (readAll E depth true ⟨d, chunks.flatten⟩).2.data := by
  cases chunks with
  | nil =>
    rw [List.flatten_nil, readAll_nil E rfl, List.foldl_nil, close, finishReading_of_exhausted E (.inl rfl)]
    exact ⟨if_pos h0, rfl⟩
  | cons chunk chunks =>
    have hflat : Reading.append ⟨d, chunk⟩ chunks.flatten = ⟨d, (chunk :: chunks).flatten⟩ := by simp [Reading.append]
    have hfeed : (chunk :: chunks).foldl (feed E depth) (none, ⟨d, []⟩) =
        read E depth true true ⟨d, (chunk :: chunks).flatten⟩ := by
      rw [List.foldl_cons, ← hflat]
      exact foldl_feed E chunks chunk ⟨d, []⟩ (hflat ▸ h.framed)
    have hheader := readAll_noHeader h h0
    rw [hfeed, read_eq]
    by_cases herror : (readAll E depth true ⟨d, (chunk :: chunks).flatten⟩).1 = .SignalError
    · rw [if_pos herror, if_pos herror]
      exact ⟨rfl, rfl⟩
    · rw [if_neg herror, if_neg herror, close, finishReading_of_exhausted E (readAll_exhausted E herror),
        if_pos (hheader herror)]
      exact ⟨rfl, rfl⟩

theorem toInt_add_of_lt {a b : Int64} {m n : Nat} (ha : a.toInt = m) (hb : b.toInt = n) (h : m + n < 2 ^ 63) :
    (a + b).toInt = (m + n : Nat) := by
  rw [Int64.toInt_add, ha, hb, ← Int.natCast_add]
  exact Int.bmod_eq_of_le (by omega) (by omega)

/-- **A file is read like a stream of its data section**, however that arrives, where no event reads on behind the
section. -/
theorem readFile_stream {h : PerfHeader} {d : PerfData δ} (h0 : d.eventHeader.size = 0) {pre : QByteArray}
    {chunks : List QByteArray} (hoffset : h.data.offset.toInt = pre.length)
    (hsize : h.data.size.toInt = chunks.flatten.length) (hfits : pre.length + chunks.flatten.length < 2 ^ 63)
    (hframed : FramedIn E depth more ⟨d, chunks.flatten⟩) (pos : Nat) (isOpen : Bool) :
    readFile E depth h ⟨pre ++ chunks.flatten ++ more, pos⟩ d =
      (some (close E depth isOpen (chunks.foldl (feed E depth) (none, ⟨d, []⟩))),
        (chunks.foldl (feed E depth) (none, ⟨d, []⟩)).2.data) := by
  obtain ⟨hclose, hdata⟩ := close_foldl_feed h0 isOpen chunks hframed
  have hseek : QFile.seek ⟨pre ++ chunks.flatten ++ more, pos⟩ h.data.offset.toInt =
      some ⟨pre ++ chunks.flatten ++ more, pre.length⟩ := by
    rw [hoffset]
    exact if_neg (by omega)
  have hunread : QFile.unread ⟨pre ++ chunks.flatten ++ more, pre.length⟩ = chunks.flatten ++ more := by
    rw [QFile.unread, List.append_assoc, List.drop_left]
  have hloop := readSectionEvents_eq hframed ((chunks.flatten ++ more).length + 2) pre.length
    (toInt_add_of_lt hoffset hsize hfits).symm (by
      unfold iterations
      rw [if_pos h0, List.length_append]
      dsimp only
      omega)
  have hne := readAll_ne_rerun hframed
  rw [hclose, hdata]
  unfold readFile doReadFile
  rw [hseek]
  dsimp only
  rw [hunread, show (⟨d, chunks.flatten ++ more⟩ : Reading δ) = Reading.append ⟨d, chunks.flatten⟩ more from rfl, hloop]
  generalize readAll E depth true ⟨d, chunks.flatten⟩ = result at hne
  obtain ⟨st, r⟩ := result
  cases st with
  | Rerun => exact absurd rfl hne
  | SignalError => rfl
  | SignalFinished => rfl

/-- A `COMM` record and a finished round behind a header, in a file whose features follow. -/
theorem readFile_stream_comm :
    let chunks : List QByteArray :=
      [[3, 0, 0, 0, 0, 0, 20, 0, 5, 0], [0, 0, 6, 0, 0, 0, 115, 104, 0, 0], [68, 0, 0, 0, 0, 0, 8, 0]]
    readFile (plainEnv false) 0 { data := ⟨4, 28⟩ } ⟨[0, 0, 0, 0] ++ chunks.flatten ++ [9, 9], 0⟩ {} =
      (some (close (plainEnv false) 0 false (chunks.foldl (feed (plainEnv false) 0) (none, ⟨{}, []⟩))),
        (chunks.foldl (feed (plainEnv false) 0) (none, ⟨{}, []⟩)).2.data) := by
  refine readFile_stream rfl rfl rfl (by decide) ?_ 0 false
  refine .event (by decide) rfl ⟨by decide, ?_⟩ (.event (by decide) rfl ⟨by decide, ?_⟩ (.done rfl))
  · rintro r' ⟨⟩
    decide
  · rintro r' ⟨⟩
    decide

end PerfData
end PerfParser
