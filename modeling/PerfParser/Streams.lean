import PerfParser.Application
/-!
# Streams — a stream is read like what it holds (`main.cpp`)

A stream of events leads to the same however it arrives (`runStream_chunks`).  A file that arrives as a stream leads to what
it leads to as a file (`runStream_file`), although the buffer file has zeros for its header.
-/
namespace PerfParser

open QDataStream Reader
open PerfRegisterInfo (archByName)

namespace PerfHeader

variable {r : Reading} {bytes : QByteArray} {s : Signal}

/-- A call that emits something has found sixteen bytes. -/
theorem length_of_emitted (h : read none ⟨{}, bytes⟩ = (some s, r)) : 16 ≤ bytes.length := by
  by_contra hlt
  have hread : read none ⟨{}, bytes⟩ = (none, ⟨{}, bytes⟩) :=
    (if_pos rfl).trans ((if_neg Bool.false_ne_true).trans (if_pos (Nat.lt_of_not_le hlt)))
  rw [hread] at h
  cases h

theorem magic_of_finished (h : read none ⟨{}, bytes⟩ = (some .finished, r)) :
    (opening bytes).magic = magicSame ∨ (opening bytes).magic = magicSwitched := by
  by_contra hbad
  have hlen := length_of_emitted h
  have hpipe : ¬bytes.length < pipeHeaderFixedLength := Nat.not_lt.2 hlen
  have hmagic : (opening bytes).magic ≠ magicSame ∧ (opening bytes).magic ≠ magicSwitched := not_or.1 hbad
  have hread : (read none ⟨{}, bytes⟩).1 = some .error := by
    unfold read
    dsimp only
    rw [if_pos rfl, tooSmall_none, if_neg Bool.false_ne_true, if_neg hpipe]
    exact congrArg Prod.fst (if_pos hmagic)
  rw [h] at hread
  cases hread

/-- The header of a file or a pipe that is read at once. -/
theorem read_of_finished (h : read none ⟨{}, bytes⟩ = (some .finished, r)) :
    readFile none (opening bytes).bigEndian ⟨opening bytes, bytes.drop 16⟩ = (some .finished, r) := by
  rw [← h]
  exact (read_opening (length_of_emitted h) (magic_of_finished h)).symm

theorem readFile_pipe {bigEndian : Bool} {header : PerfHeader} {unread : QByteArray} (h : header.isPipe = true) :
    readFile none bigEndian ⟨header, unread⟩ = (some .finished, ⟨header, unread⟩) := by
  have hsize : header.size.toInt = pipeHeaderFixedLength := by simpa [isPipe] using h
  unfold readFile
  dsimp only
  rw [if_neg (by omega), if_neg (by omega)]

theorem readFile_signal (bigEndian : Bool) {header : PerfHeader} {unread : QByteArray} (hsize : 16 < header.size.toInt)
    (h : 88 ≤ unread.length) : (readFile none bigEndian ⟨header, unread⟩).1 =
      if intMax < header.size.toInt then some .error else some .finished := by
  have hfields := readFields_size bigEndian header unread
  have hpipe : ¬header.size.toInt < (pipeHeaderFixedLength : Int) := Int.not_lt.2 (Int.le_of_lt hsize)
  have hfile : header.size.toInt > (pipeHeaderFixedLength : Int) := hsize
  have hthere : ¬unread.length < fileHeaderFixedLength - pipeHeaderFixedLength := Nat.not_lt.2 h
  have hfixed : (fileHeaderFixedLength : Int) < intMax := by decide
  unfold readFile
  generalize (readFields bigEndian header).run unread = fields at hfields ⊢
  obtain ⟨header', unread'⟩ := fields
  dsimp only at hfields ⊢
  rw [if_neg hpipe, if_pos hfile, tooSmall_none, if_neg Bool.false_ne_true, if_neg hthere, tooSmall_none,
    if_neg Bool.false_ne_true, fixFeatures_size, hfields]
  by_cases hlarge : intMax < header.size.toInt
  · rw [if_pos hlarge, if_pos (show header.size.toInt > fileHeaderFixedLength by omega), if_pos hlarge]
  · rw [if_neg hlarge, if_neg (show ¬header.size.toInt > intMax from hlarge)]
    split <;> rfl

/-- What is read of a file does not depend on what is behind its header. -/
theorem readFile_append {bigEndian : Bool} {header : PerfHeader} {unread more : QByteArray}
    (h : readFile none bigEndian ⟨header, unread ++ more⟩ = (some .finished, r))
    (hlen : header.length - 16 ≤ unread.length) :
    readFile none bigEndian ⟨header, unread⟩ = (some .finished, ⟨r.header, unread.drop (header.length - 16)⟩) := by
  have hle : 16 ≤ header.size.toInt := (readFile_finished h).2.1
  by_cases hpipe : header.isPipe = true
  · rw [readFile_pipe hpipe] at h ⊢
    cases h
    rw [length, if_pos hpipe]
    rfl
  · have hlength : header.length = max 104 header.size.toInt.toNat := if_neg hpipe
    have hlarge : 16 < header.size.toInt := by
      have hne : header.size.toInt ≠ (pipeHeaderFixedLength : Int) := by simpa [isPipe] using hpipe
      have : (pipeHeaderFixedLength : Int) = 16 := rfl
      omega
    have hthere : 88 ≤ unread.length := by omega
    have hthere' : 88 ≤ (unread ++ more).length := by
      rw [List.length_append]
      omega
    have hsignal := readFile_signal bigEndian hlarge hthere
    rw [← readFile_signal bigEndian hlarge hthere', h] at hsignal
    obtain ⟨s, rest, hread⟩ := readFile_complete bigEndian hlarge hthere
    obtain ⟨s', rest', hread'⟩ := readFile_complete bigEndian hlarge hthere'
    rw [hread] at hsignal
    obtain rfl : s = .finished := Option.some.inj hsignal
    rw [h, complete_append bigEndian header hthere] at hread'
    obtain ⟨-, -, hrest⟩ := readFile_finished hread
    have hheader : r.header = complete bigEndian header unread := congrArg (fun x => x.2.header) hread'
    rw [hread, hheader]
    exact congrArg (fun rest => (some Signal.finished, (⟨_, rest⟩ : Reading))) hrest

theorem read_short {bytes : QByteArray} (h : bytes.length < 16) : read none ⟨{}, bytes⟩ = (none, ⟨{}, bytes⟩) :=
  (if_pos rfl).trans ((if_neg Bool.false_ne_true).trans (if_pos h))

/-- **A header that is all there** is read as if everything behind it was there. -/
theorem read_append {more : QByteArray} (h : read none ⟨{}, bytes ++ more⟩ = (some .finished, r))
    (hlen : r.header.length ≤ bytes.length) :
    read none ⟨{}, bytes⟩ = (some .finished, ⟨r.header, bytes.drop r.header.length⟩) := by
  have hread := read_of_finished h
  have hsize : r.header.length = (opening (bytes ++ more)).length := length_congr (readFile_finished hread).1
  have hsixteen : 16 ≤ r.header.length := by
    unfold length
    split <;> omega
  have hopening := opening_append (hsixteen.trans hlen) more
  have hmagic := magic_of_finished h
  rw [hopening] at hread hsize hmagic
  rw [List.drop_append_of_le_length (hsixteen.trans hlen)] at hread
  rw [read_opening (hsixteen.trans hlen) hmagic, readFile_append hread (by rw [List.length_drop]; omega), ← hsize,
    List.drop_drop]
  congr 3
  omega

theorem sixteen_le_arrived : ∀ {chunks : List QByteArray} {n : Nat}, 16 ≤ n + chunks.flatten.length →
    16 ≤ arrived n chunks
  | [], n, h => h
  | chunk :: chunks, n, h => by
    rw [arrived]
    split
    · assumption
    · refine sixteen_le_arrived ?_
      rw [List.flatten_cons, List.length_append] at h
      omega

end PerfHeader

namespace Application

variable {δ : Type} {P : Platform δ} {a : Application δ} {bytes : QByteArray} {r : PerfHeader.Reading}

/-! ## The header -/

/-- The header is read when it is all there. -/
theorem foldl_arrive_header (hread : PerfHeader.read none ⟨{}, bytes⟩ = (some .finished, r)) :
    ∀ (chunks : List QByteArray) (unread : QByteArray), unread.length < 16 → unread ++ chunks.flatten = bytes →
      r.header.length ≤ PerfHeader.arrived unread.length chunks →
      ∃ (first : QByteArray) (rest : List QByteArray), first ++ rest.flatten = bytes ∧ r.header.length ≤ first.length ∧
        (∃ chunk ∈ chunks, first.length < 16 + chunk.length) ∧ (∀ chunk ∈ rest, chunk ∈ chunks) ∧
        chunks.foldl (arrive P) (.header ⟨{}, unread⟩) =
          rest.foldl (arrive P) (headerFinished P ⟨r.header, first.drop r.header.length⟩)
  | [], unread, hshort, hall, _ => by
    rw [List.flatten_nil, List.append_nil] at hall
    have := PerfHeader.length_of_emitted hread
    rw [← hall] at this
    omega
  | chunk :: chunks, unread, hshort, hall, harrived => by
    rw [List.flatten_cons, ← List.append_assoc] at hall
    rw [PerfHeader.arrived, ← List.length_append] at harrived
    rw [List.foldl_cons, arrive]
    by_cases h : 16 ≤ (unread ++ chunk).length
    · rw [if_pos h] at harrived
      refine ⟨unread ++ chunk, chunks, hall, harrived, ⟨chunk, List.mem_cons_self, ?_⟩,
        fun c hc => List.mem_cons_of_mem chunk hc, ?_⟩
      · rw [List.length_append]
        omega
      · rw [PerfHeader.read_append (hall ▸ hread) harrived]
    · rw [if_neg h] at harrived
      obtain ⟨first, rest, hfirst, hlen, ⟨c, hc, hclen⟩, hrest, hfold⟩ :=
        foldl_arrive_header hread chunks (unread ++ chunk) (Nat.lt_of_not_le h) hall harrived
      refine ⟨first, rest, hfirst, hlen, ⟨c, List.mem_cons_of_mem chunk hc, hclen⟩,
        fun c hc => List.mem_cons_of_mem chunk (hrest c hc), ?_⟩
      rw [PerfHeader.read_short (Nat.lt_of_not_le h), hfold]

/-! ## A stream of events -/

/-- What the parser has made of a stream of events. -/
def ofEvents (a : Application δ) : Option PerfData.Signal × Reading δ → Stage δ
  | (none, r) => .events { a with data := r.data } r.unread
  | (some signal, r) => .done (a.receive signal r.data)

theorem readEvents_eq (unread : QByteArray) :
    a.readEvents P unread = a.ofEvents (PerfData.feed (a.env P) P.depth (none, ⟨a.data, []⟩) unread) := by
  unfold readEvents
  rw [PerfData.feed_none]
  show _ = a.ofEvents (PerfData.read (a.env P) P.depth true true ⟨a.data, unread⟩)
  generalize PerfData.read (a.env P) P.depth true true ⟨a.data, unread⟩ = result
  rcases result with ⟨_ | signal, r⟩ <;> rfl

theorem arrive_ofEvents (s : Option PerfData.Signal × Reading δ) (chunk : QByteArray) :
    arrive P (a.ofEvents s) chunk = a.ofEvents (PerfData.feed (a.env P) P.depth s chunk) := by
  obtain ⟨signal, r⟩ := s
  cases signal with
  | none => exact readEvents_eq (a := { a with data := r.data }) (r.unread ++ chunk)
  | some signal => rfl

theorem foldl_arrive_ofEvents : ∀ (chunks : List QByteArray) (s : Option PerfData.Signal × Reading δ),
    chunks.foldl (arrive P) (a.ofEvents s) = a.ofEvents (chunks.foldl (PerfData.feed (a.env P) P.depth) s)
  | [], _ => rfl
  | chunk :: chunks, s => by
    rw [List.foldl_cons, List.foldl_cons, arrive_ofEvents, foldl_arrive_ofEvents chunks]

theorem foldl_arrive_done : ∀ chunks : List QByteArray, chunks.foldl (arrive P) (.done a) = .done a
  | [] => rfl
  | _ :: chunks => foldl_arrive_done chunks

/-- What a pipe leads to when its header is read. -/
theorem headerFinished_pipe {h : PerfHeader} (unread : QByteArray) (hpipe : h.isPipe = true)
    (harch : archByName (started P h).features.arch ≠ none) :
    headerFinished P ⟨h, unread⟩ =
      (started P h).ofEvents (PerfData.feed ((started P h).env P) P.depth (none, ⟨{}, []⟩) unread) := by
  unfold headerFinished
  dsimp only
  rw [if_pos hpipe, if_neg harch]
  split
  · rename_i hnil
    rw [hnil, PerfData.feed_none, PerfData.read_eq, PerfData.readAll_nil _ rfl]
    rfl
  · exact readEvents_eq (a := started P h) unread

/-- What a stream of events leads to, where every event takes what it announces: its arrivals make no difference. -/
theorem runStream_eq {chunks : List QByteArray}
    (hread : PerfHeader.read none ⟨{}, chunks.flatten⟩ = (some .finished, r)) (hpipe : r.header.isPipe = true)
    (hframed : PerfData.Framed ((started P r.header).env P) P.depth ⟨{}, r.unread⟩) :
    runStream P chunks = close P
      (if archByName (started P r.header).features.arch = none then .done ((started P r.header).exit .MissingData)
      else (started P r.header).ofEvents (PerfData.read ((started P r.header).env P) P.depth true true ⟨{}, r.unread⟩)) := by
  have hunread := PerfHeader.unread_of_finished hread
  have hlength : r.header.length = 16 := if_pos hpipe
  have harrived : r.header.length ≤ PerfHeader.arrived ([] : QByteArray).length chunks := by
    have hlen := PerfHeader.length_of_emitted hread
    rw [hlength]
    refine PerfHeader.sixteen_le_arrived ?_
    rw [List.length_nil]
    omega
  obtain ⟨first, rest, hfirst, hlen, -, -, hfold⟩ := foldl_arrive_header (P := P) hread chunks [] (by decide) rfl
    harrived
  have hdrop : r.unread = first.drop r.header.length ++ rest.flatten := by
    rw [hunread, ← hfirst, List.drop_append_of_le_length hlen]
  unfold runStream
  rw [hfold]
  split
  · rename_i harch
    have hdone : headerFinished P ⟨r.header, first.drop r.header.length⟩ =
        .done ((started P r.header).exit .MissingData) := (if_pos hpipe).trans (if_pos harch)
    rw [hdone, foldl_arrive_done]
  · rename_i harch
    rw [headerFinished_pipe _ hpipe harch, foldl_arrive_ofEvents, PerfData.foldl_feed, hdrop]
    · rfl
    · rw [hdrop] at hframed
      exact hframed

/-- **A stream of events leads to the same however it arrives**, where every event takes what it announces. -/
theorem runStream_chunks {chunks chunks' : List QByteArray} (hsame : chunks'.flatten = chunks.flatten)
    (hread : PerfHeader.read none ⟨{}, chunks.flatten⟩ = (some .finished, r)) (hpipe : r.header.isPipe = true)
    (hframed : PerfData.Framed ((started P r.header).env P) P.depth ⟨{}, r.unread⟩) :
    runStream P chunks' = runStream P chunks := by
  have hread' : PerfHeader.read none ⟨{}, chunks'.flatten⟩ = (some .finished, r) := by rw [hsame, hread]
  rw [runStream_eq hread hpipe hframed, runStream_eq hread' hpipe hframed]

/-- A `COMM` record and a finished round, cut in the header and in both records. -/
theorem runStream_chunks_comm :
    let chunks : List QByteArray := [pipeHeader.take 9, pipeHeader.drop 9 ++ [3, 0, 0, 0, 0, 0, 20, 0, 5, 0],
      [0, 0, 6, 0, 0, 0, 115, 104, 0, 0, 68], [0, 0, 0, 0, 0, 8, 0]]
    runStream plainPlatform [chunks.flatten] = runStream plainPlatform chunks :=
  runStream_chunks (r := ⟨PerfHeader.opening pipeHeader, [3, 0, 0, 0, 0, 0, 20, 0, 5, 0, 0, 0, 6, 0, 0, 0, 115, 104, 0, 0,
    68, 0, 0, 0, 0, 0, 8, 0]⟩) rfl rfl rfl <|
    .event (by decide) rfl (by decide) <| .event (by decide) rfl (by decide) <| .done rfl

end Application

end PerfParser
