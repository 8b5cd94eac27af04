import PerfParser.PerfFeatures
/-!
# BuildIds — how far the loop over the build ids gets (`perffeatures.cpp`)

The loop goes on until the sizes of the entries add up to the size of the section.  Past the end of the file all of them
are zero, so it ends if and only if the entries in the file add up to that size (`build_ids_end_iff`).  A section that is
written as one is read entry by entry, up to its end.
-/
namespace PerfParser

open QDataStream Reader

variable (bigEndian : Bool)

namespace PerfBuildId

/-! ## One entry -/

/-- The size of the entry that `s` starts with; none where the file ends before it. -/
def sizeAt (s : QByteArray) : UInt16 := ((u16 bigEndian).run (s.drop 6)).1

/-- What an entry of that size takes: a size too small for its fixed part is one of more than `2 ^ 16` bytes. -/
def entryLength (size : UInt16) : Nat := 36 + (fileNameLength size).toNat

theorem takes_header : Takes (PerfEventHeader.read bigEndian) 8 :=
  (takes_u32 bigEndian).bind (m := 4) (n := 4) fun _ => (takes_u16 bigEndian).bind (m := 2) (n := 2) fun _ =>
    (takes_u16 bigEndian).map _

theorem run_header_size (s : QByteArray) : ((PerfEventHeader.read bigEndian).run s).1.size = sizeAt bigEndian s := by
  simp only [PerfEventHeader.read, run_bind, run_pure, (takes_u32 bigEndian).run_snd, (takes_u16 bigEndian).run_snd,
    List.drop_drop, sizeAt]

theorem run_readEntry_size (s : QByteArray) : ((readEntry bigEndian).run s).1.1 = sizeAt bigEndian s :=
  run_header_size bigEndian s

theorem run_readEntry_snd (s : QByteArray) :
    ((readEntry bigEndian).run s).2 = s.drop (entryLength (sizeAt bigEndian s)) := by
  refine ((takes_header bigEndian).bind_run_snd (n := 28 + (fileNameLength (sizeAt bigEndian s)).toNat) ?_).trans
    (by rw [entryLength, ← Nat.add_assoc])
  rw [run_header_size]
  refine ((takes_i32 bigEndian).bind fun _ => (takes_readRawData 20).bind fun _ =>
    (takes_skipRawData 4).bind fun _ => (takes_readRawData _).map _).of_eq (by omega)

theorem sizeAt_of_short {s : QByteArray} (h : s.length < 8) : sizeAt bigEndian s = 0 := by
  show UInt16.ofNat (if ((s.drop 6).take 2).length < 2 then 0 else _) = 0
  rw [if_pos (by rw [List.length_take, List.length_drop]; omega)]
  rfl

/-- The sizes of the entries in the file, added up. -/
def announced (s : QByteArray) : Nat :=
  if s.length < 8 then 0 else (sizeAt bigEndian s).toNat + announced (s.drop (entryLength (sizeAt bigEndian s)))
termination_by s.length
decreasing_by
  rw [List.length_drop, entryLength]
  omega

/-! ## The loop -/

theorem body_next (e : Entries) : (body bigEndian e).next = e.next + (sizeAt bigEndian e.unread).toNat := by
  rw [← run_readEntry_size]
  rfl

theorem body_unread (e : Entries) :
    (body bigEndian e).unread = e.unread.drop (entryLength (sizeAt bigEndian e.unread)) := by
  rw [← run_readEntry_snd]
  rfl

/-- Past the end of the file the loop gets no further. -/
theorem not_ends_of_short {size : Int} {e : Entries} (hshort : e.unread.length < 8) (hmore : more size e = true) :
    ¬Loop.Ends (more size) (body bigEndian) e := by
  refine Loop.not_ends (P := fun e => e.unread.length < 8 ∧ more size e = true) (fun e h => ⟨h.2, ?_, ?_⟩)
    ⟨hshort, hmore⟩
  · rw [body_unread, List.length_drop]
    omega
  · rw [more, body_next, sizeAt_of_short bigEndian h.1, UInt16.toNat_zero, Int.natCast_zero, Int.add_zero]
    exact h.2

/-- **The loop ends if and only if the entries in the file get it there.** -/
theorem ends_iff (size : Int) (e : Entries) :
    Loop.Ends (more size) (body bigEndian) e ↔ size ≤ e.next + announced bigEndian e.unread := by
  generalize hn : e.unread.length = n
  induction n using Nat.strong_induction_on generalizing e with
  | _ n ih =>
    cases hmore : more size e with
    | false =>
      have hle : ¬e.next < size := by rw [more, decide_eq_false_iff_not] at hmore; exact hmore
      exact iff_of_true (Loop.ends_of_not hmore) (by omega)
    | true =>
      have hlt : e.next < size := by rwa [more, decide_eq_true_eq] at hmore
      rw [announced]
      by_cases hshort : e.unread.length < 8
      · rw [if_pos hshort]
        exact iff_of_false (not_ends_of_short bigEndian hshort hmore) (by omega)
      · have hless : (body bigEndian e).unread.length < n := by
          rw [body_unread, List.length_drop, entryLength]
          omega
        rw [if_neg hshort, ← Loop.ends_body_iff hmore, ih _ hless _ rfl, body_next, body_unread]
        push_cast
        rw [Int.add_assoc]

/-! ## Sections as they are written -/

/-- An entry as `perf record` writes it, with room for the file name and the zeros behind it. -/
structure Written where
  type : UInt32
  misc : UInt16
  build : BuildId
  idPadding : QByteArray
  room : Nat
  length_id : build.id.length = 20
  length_idPadding : idPadding.length = 4
  trimmed : removeTrailingZeros build.fileName = build.fileName
  fits : build.fileName.length ≤ room
  room_lt : 36 + room < 2 ^ 16

namespace Written

variable (w : Written)

def size : UInt16 := UInt16.ofNat (36 + w.room)

def layout : QByteArray :=
  Layout.header bigEndian ⟨w.type, w.misc, w.size⟩ ++ (Layout.i32 bigEndian w.build.pid ++ (w.build.id ++ (w.idPadding ++
    (w.build.fileName ++ List.replicate (w.room - w.build.fileName.length) 0))))

theorem toNat_size : w.size.toNat = 36 + w.room := UInt16.toNat_ofNat_of_lt w.room_lt

theorem length_layout : (w.layout bigEndian).length = w.size.toNat := by
  simp only [layout, List.length_append, Layout.length_header, Layout.length_i32, w.length_id, w.length_idPadding,
    List.length_replicate, toNat_size]
  have := w.fits
  omega

theorem fileNameLength_size : (fileNameLength w.size).toNat = w.room := by
  have hsize := w.toNat_size
  have hlt := w.room_lt
  simp only [fileNameLength, PerfEventHeader.fixedLength, s_idPadding, s_idLength, UInt16.toNat_sub, hsize,
    UInt16.toNat_ofNat]
  omega

theorem removeTrailingZeros_append (string : QByteArray) :
    ∀ n, removeTrailingZeros (string ++ List.replicate n 0) = removeTrailingZeros string
  | 0 => by rw [List.replicate_zero, List.append_nil]
  | n + 1 => by
    have h := removeTrailingZeros_append string n
    rw [List.replicate_succ', ← List.append_assoc]
    exact (List.rdropWhile_concat_pos _ _ _ (by decide)).trans h

theorem reads_readRawData_of_length {n : Nat} {bytes : QByteArray} (h : bytes.length = n) :
    Reads (readRawData n) bytes bytes := h ▸ Reads.raw 0 bytes

/-- An entry is read as it was written. -/
theorem reads_readEntry : Reads (readEntry bigEndian) (w.layout bigEndian) (w.size, w.build) := by
  have hpadding := Reads.skip w.idPadding
  have hroom : (w.build.fileName ++ List.replicate (w.room - w.build.fileName.length) 0).length =
      (fileNameLength w.size).toNat := by
    have := w.fits
    rw [List.length_append, List.length_replicate, fileNameLength_size]
    omega
  rw [w.length_idPadding] at hpadding
  refine (Layout.reads_header bigEndian _).bind <| (Layout.reads_i32 bigEndian w.build.pid).bind <|
    (reads_readRawData_of_length w.length_id).bind <| hpadding.bind <|
    ((reads_readRawData_of_length hroom).map _).of_eq rfl ?_
  rw [removeTrailingZeros_append, w.trimmed]

end Written

/-- **A section is read entry by entry, up to its end and no further.** -/
theorem returns_written (size : Int) (rest : QByteArray) : ∀ (entries : List Written) (e : Entries),
    e.unread = entries.flatMap (Written.layout bigEndian) ++ rest →
    e.next + (entries.flatMap (Written.layout bigEndian)).length = size →
    Loop.Returns (more size) (body bigEndian) e
      { next := size, buildIds := e.buildIds ++ entries.map (·.build), unread := rest }
  | [], e, hunread, hsize => by
    have hend : e = { next := size, buildIds := e.buildIds ++ [], unread := rest } := by
      obtain ⟨next, buildIds, unread⟩ := e
      rw [List.flatMap_nil, List.length_nil, Int.natCast_zero, Int.add_zero] at hsize
      rw [List.flatMap_nil, List.nil_append] at hunread
      rw [List.append_nil, ← hsize, ← hunread]
    rw [List.map_nil, ← hend]
    refine Loop.returns_of_not ?_
    rw [more, hend, decide_eq_false_iff_not]
    exact Int.lt_irrefl size
  | w :: entries, e, hunread, hsize => by
    rw [List.flatMap_cons, List.append_assoc] at hunread
    rw [List.flatMap_cons, List.length_append, w.length_layout] at hsize
    have hpos : 0 < w.size.toNat := by rw [w.toNat_size]; omega
    have hmore : more size e = true := by
      rw [more, decide_eq_true_eq]
      omega
    have hbody : body bigEndian e =
        { next := e.next + w.size.toNat, buildIds := e.buildIds ++ [w.build],
          unread := entries.flatMap (Written.layout bigEndian) ++ rest } := by
      rw [body, hunread, w.reads_readEntry bigEndian]
    have hrest := returns_written size rest entries (body bigEndian e) (by rw [hbody]) (by
      rw [hbody, ← hsize, Int.natCast_add, ← Int.add_assoc])
    rw [Loop.returns_body_iff hmore, hbody, List.append_assoc] at hrest
    exact hrest

/-! ## The section -/

/-- `operator>>` comes to an end. -/
def Ends (b : PerfBuildId) (unread : QByteArray) : Prop := ∃ fuel, (b.read bigEndian fuel unread).isSome = true

/-- It reads a section that is written as one as what is written, and nothing behind it. -/
def ReadsWritten (b : PerfBuildId) (unread : QByteArray) : Prop :=
  ∀ (entries : List Written) (rest : QByteArray), unread = entries.flatMap (Written.layout bigEndian) ++ rest →
    b.size = (entries.flatMap (Written.layout bigEndian)).length →
    ∃ fuel, b.read bigEndian fuel unread = some ({ b with buildIds := b.buildIds ++ entries.map (·.build) }, rest)

theorem ends_iff_loop (b : PerfBuildId) (unread : QByteArray) : b.Ends bigEndian unread ↔
    Loop.Ends (more b.size) (body bigEndian) { buildIds := b.buildIds, unread } := by
  simp only [Ends, read, Loop.Ends, Loop.Returns, Option.isSome_map, Option.isSome_iff_exists]
  exact exists_comm

theorem readsWritten (b : PerfBuildId) (unread : QByteArray) : b.ReadsWritten bigEndian unread := by
  intro entries rest hunread hsize
  obtain ⟨fuel, hrun⟩ := returns_written bigEndian b.size rest entries { buildIds := b.buildIds, unread } hunread
    (by rw [hsize, Int.zero_add])
  exact ⟨fuel, by rw [read, hrun]; rfl⟩

/-- **The loop over the build ids ends, and reads what is written, if and only if the entries that the file has add up
to the size of the section.** -/
theorem build_ids_end_iff (b : PerfBuildId) (unread : QByteArray) :
    b.Ends bigEndian unread ∧ b.ReadsWritten bigEndian unread ↔ b.size ≤ announced bigEndian unread := by
  rw [and_iff_left (readsWritten bigEndian b unread), ends_iff_loop, ends_iff, Int.zero_add]

/-- A section of one entry whose header gives it no size, at the end of the file, is read for ever. -/
theorem not_build_ids_end :
    ¬∀ (bigEndian : Bool) (b : PerfBuildId) (unread : QByteArray),
      b.Ends bigEndian unread ∧ b.ReadsWritten bigEndian unread := by
  intro h
  have hends := (ends_iff_loop false _ _).1 (h false { size := 36 } (List.replicate 36 0)).1
  have hle := (ends_iff false 36 _).1 hends
  have hsize : sizeAt false (List.replicate 36 0) = 0 := by decide
  have hdrop : (List.replicate 36 (0 : UInt8)).drop (entryLength 0) = [] := by decide
  rw [announced, if_neg (by decide), hsize, hdrop, announced, if_pos (by decide)] at hle
  exact absurd hle (by decide)

end PerfBuildId

end PerfParser
