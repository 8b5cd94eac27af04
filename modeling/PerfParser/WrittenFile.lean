import PerfParser.Streams
import PerfParser.WrittenEvents
/-!
# WrittenFile — `perf.data`, and back

A stream of events is a header of sixteen bytes and the events, and is read as what was written however it arrives
(`Application.runStream_written`).  A file has a header that says where its sections are: the attributes with the places
of their ids, the events, and behind those a table of the features.  Wherever the sections are, the file is read as what
was written: its features and attributes are announced, and then its events are dispatched in their order
(`Application.runFile_written`).
-/
namespace PerfParser

open QDataStream Reader
open PerfHeader (Feature)
open PerfRegisterInfo (archByName)

/-! ## Headers -/

namespace PerfHeader

variable {h : PerfHeader}

/-- The magic, which gives away the byte order, and the size. -/
def openingLayout (h : PerfHeader) : QByteArray := Layout.i64 true h.magic ++ Layout.i64 h.bigEndian h.size

/-- What is behind them in a file. -/
def fieldsLayout (h : PerfHeader) : QByteArray :=
  Layout.i64 h.bigEndian h.attrSize ++ (Layout.fileSection h.bigEndian h.attrs ++
    (Layout.fileSection h.bigEndian h.data ++ (Layout.fileSection h.bigEndian h.eventTypes ++
      h.features.flatMap (Layout.u64 h.bigEndian))))

theorem reads_readFields (hlength : h.features.length = 4) (h₀ : PerfHeader) :
    Reads (readFields h.bigEndian h₀) h.fieldsLayout
      { h with magic := h₀.magic, size := h₀.size } := by
  have hfeatures := Layout.reads_flatMap_u64 h.bigEndian h.features
  rw [hlength] at hfeatures
  exact (Layout.reads_i64 _ _).bind <| (Layout.reads_fileSection _ _).bind <| (Layout.reads_fileSection _ _).bind <|
    (Layout.reads_fileSection _ _).bind <| hfeatures.map _

/-- The magic is one that the reader knows. -/
def Known (h : PerfHeader) : Prop := h.magic = magicSame ∨ h.magic = magicSwitched

theorem length_openingLayout (h : PerfHeader) : h.openingLayout.length = 16 := by
  rw [openingLayout, List.length_append, Layout.i64, Layout.i64, Layout.length_u64, Layout.length_u64]

theorem read_openingLayout {fileSize : Option Int} (hknown : h.Known)
    (hfits : tooSmall fileSize pipeHeaderFixedLength = false) (rest : QByteArray) :
    read fileSize ⟨{}, h.openingLayout ++ rest⟩ =
      readFile fileSize h.bigEndian ⟨{ magic := h.magic, size := h.size }, rest⟩ := by
  have hlen : ¬(h.openingLayout ++ rest).length < pipeHeaderFixedLength := by
    rw [List.length_append, length_openingLayout, pipeHeaderFixedLength]
    omega
  have hbad : ¬(h.magic ≠ magicSame ∧ h.magic ≠ magicSwitched) := fun hbad => hknown.elim hbad.1 hbad.2
  have hmagic := Layout.reads_i64 true h.magic (Layout.i64 h.bigEndian h.size ++ rest)
  have hsize := Layout.reads_i64 h.bigEndian h.size rest
  rw [← List.append_assoc] at hmagic
  have hsame : PerfHeader.bigEndian { magic := h.magic } = h.bigEndian := rfl
  unfold read
  simp only [openingLayout, hmagic, hsame, hsize]
  rw [if_pos trivial, hfits, if_neg Bool.false_ne_true]
  exact (if_neg hlen).trans (if_neg hbad)

/-- A file is at least as long as its header. -/
structure FileHeader (h : PerfHeader) (bytes : QByteArray) : Prop where
  known : h.Known
  features : h.features.length = 4
  -- no switched header of before the features: `fixFeatures` would change what these are
  fixed : h.fixFeatures = h
  size : 104 ≤ h.size.toInt
  size_le : h.size.toInt ≤ intMax
  data : (h.data.offset + h.data.size).toInt ≤ bytes.length
  isPrefix : h.openingLayout ++ h.fieldsLayout <+: bytes

theorem length_fieldsLayout (hlength : h.features.length = 4) : h.fieldsLayout.length = 88 := by
  simp only [fieldsLayout, Layout.fileSection, Layout.i64, List.length_append, Layout.length_u64,
    Layout.length_flatMap_u64, hlength]

/-- **The header of a file is read as it was written.** -/
theorem FileHeader.read_eq {bytes : QByteArray} (hh : h.FileHeader bytes) :
    read (some bytes.length) ⟨{}, bytes⟩ = (some .finished, ⟨h, bytes.drop h.size.toInt.toNat⟩) := by
  obtain ⟨rest, rfl⟩ := hh.isPrefix
  have hsize := hh.size
  have hsmall (n : Nat) (hn : n ≤ 104) : tooSmall (some (h.openingLayout ++ h.fieldsLayout ++ rest).length) n = false := by
    rw [tooSmall, decide_eq_false_iff_not, List.length_append, List.length_append, length_openingLayout,
      length_fieldsLayout hh.features]
    omega
  have hdata : tooSmall (some (h.openingLayout ++ h.fieldsLayout ++ rest).length) (h.data.offset + h.data.size).toInt =
      false := decide_eq_false (Int.not_lt.2 hh.data)
  have hfields : (readFields h.bigEndian { magic := h.magic, size := h.size }).run (h.fieldsLayout ++ rest) = (h, rest) :=
    reads_readFields hh.features { magic := h.magic, size := h.size } rest
  have hlen : ¬(h.fieldsLayout ++ rest).length < fileHeaderFixedLength - pipeHeaderFixedLength := by
    rw [List.length_append, length_fieldsLayout hh.features]
    exact Nat.not_lt.2 (Nat.le_add_right 88 _)
  have hdrop : (h.openingLayout ++ h.fieldsLayout ++ rest).drop h.size.toInt.toNat =
      rest.drop (h.size.toInt - (fileHeaderFixedLength : Int)).toNat := by
    have hfront : (h.openingLayout ++ h.fieldsLayout).length = 104 := by
      rw [List.length_append, length_openingLayout, length_fieldsLayout hh.features]
    have hnat : h.size.toInt.toNat = 104 + (h.size.toInt - (fileHeaderFixedLength : Int)).toNat := by
      have : (fileHeaderFixedLength : Int) = 104 := rfl
      omega
    rw [hnat, ← List.drop_drop, ← hfront, List.drop_left]
  have hpipe : ¬h.size.toInt < (pipeHeaderFixedLength : Int) := by
    have : (pipeHeaderFixedLength : Int) = 16 := rfl
    omega
  have hfile : h.size.toInt > (pipeHeaderFixedLength : Int) := by
    have : (pipeHeaderFixedLength : Int) = 16 := rfl
    omega
  rw [List.append_assoc, read_openingLayout hh.known (by rw [← List.append_assoc]; exact hsmall _ (by decide)),
    ← List.append_assoc, hdrop]
  unfold readFile
  simp only [hfields, hh.fixed]
  rw [if_neg hpipe, if_pos hfile, hsmall _ (by decide), if_neg Bool.false_ne_true, if_neg hlen, hdata,
    if_neg Bool.false_ne_true]
  split
  · rw [if_neg (Int.not_lt.2 hh.size_le)]
    rfl
  · rename_i hexact
    have hzero : (h.size.toInt - (fileHeaderFixedLength : Int)).toNat = 0 := by omega
    rw [hzero, List.drop_zero]

end PerfHeader

/-! ## Attributes -/

/-- An entry of the table of attributes, with the place of its ids. -/
structure WrittenEntry where
  attr : WrittenAttribute
  ids : List UInt64
  place : PerfFileSection

/-- The table has the entries from a place on, and the ids of the entries are where those say.  No attribute is smaller
than one before it, and none has flags that the byte swap would misplace. -/
structure PerfHeader.EntriesAt (h : PerfHeader) (bytes : QByteArray) (i : Nat) (entries : List WrittenEntry) : Prop where
  held : ∀ j w, entries[j]? = some w → HeldAt bytes (h.attrOffset (i + j))
    (w.attr.layout h.bigEndian ++ Layout.fileSection h.bigEndian w.place)
  idSize : ∀ w ∈ entries, w.place.size.toInt = 8 * w.ids.length
  ids : ∀ w ∈ entries, w.ids ≠ [] → HeldAt bytes w.place.offset (w.ids.flatMap (Layout.u64 h.bigEndian))
  sorted : entries.Pairwise fun w w' => w.attr.attrs.size ≤ w'.attr.attrs.size
  unswapped : ∀ w ∈ entries, w.attr.Unswapped h.bigEndian

/-- The table is where the header says. -/
structure PerfHeader.FileAttributes (h : PerfHeader) (bytes : QByteArray) (entries : List WrittenEntry) : Prop where
  attrSize : 80 ≤ h.attrSize.toInt
  size : h.attrs.size.toInt = h.attrSize.toInt * entries.length
  entriesAt : h.EntriesAt bytes 0 entries

theorem PerfHeader.EntriesAt.tail {h : PerfHeader} {bytes : QByteArray} {i : Nat} {w : WrittenEntry}
    {entries : List WrittenEntry} (hentries : h.EntriesAt bytes i (w :: entries)) : h.EntriesAt bytes (i + 1) entries where
  held j w' hw := by
    rw [Nat.add_assoc, Nat.add_comm 1 j]
    exact hentries.held (j + 1) w' hw
  idSize w' hw := hentries.idSize w' (List.mem_cons_of_mem w hw)
  ids w' hw := hentries.ids w' (List.mem_cons_of_mem w hw)
  sorted := (List.pairwise_cons.1 hentries.sorted).2
  unswapped w' hw := hentries.unswapped w' (List.mem_cons_of_mem w hw)

theorem PerfHeader.FileAttributes.numAttrs {h : PerfHeader} {bytes : QByteArray} {entries : List WrittenEntry}
    (hattrs : h.FileAttributes bytes entries) : h.numAttrs.toInt.toNat = entries.length := by
  have hpos := hattrs.attrSize
  unfold PerfHeader.numAttrs
  by_cases hnil : entries.length = 0
  · have hzero : h.attrs.size.toInt = 0 := by rw [hattrs.size, hnil, Int.natCast_zero, Int.mul_zero]
    have hnone : ¬h.attrs.size > 0 := by
      rw [gt_iff_lt, Int64.lt_iff_toInt_lt, hzero]
      exact Int.lt_irrefl 0
    rw [if_neg hnone, hnil]
    rfl
  · have hsome : h.attrs.size > 0 := by
      rw [gt_iff_lt, Int64.lt_iff_toInt_lt, hattrs.size, Int64.toInt_zero]
      exact Int.mul_pos (by omega) (by omega)
    have hne : h.attrSize ≠ -1 := by
      rintro hminus
      rw [hminus] at hpos
      exact absurd hpos (by decide)
    rw [if_pos hsome, Int64.toInt_div_of_ne_right _ _ hne, hattrs.size, Int.mul_tdiv_cancel_left _ (by omega),
      Int.toNat_natCast]

namespace PerfAttributes

open PerfEventAttributes (SIZE_VER0)

variable {h : PerfHeader} {bytes : QByteArray} {f : QFile} {attrs : PerfEventAttributes} {a : PerfAttributes}

/-- What is known once the attributes of a table are. -/
def announceAll (entries : List WrittenEntry) (a : PerfAttributes) : PerfAttributes :=
  entries.foldl (fun a w => a.announce w.attr.attrs w.ids) a

theorem globalAttributes_foldl (attrs : PerfEventAttributes) : ∀ (ids : List UInt64) (a : PerfAttributes),
    (ids.foldl (fun a id => a.addAttributes id attrs) a).globalAttributes = a.globalAttributes
  | [], _ => rfl
  | id :: ids, a => globalAttributes_foldl attrs ids (a.addAttributes id attrs)

theorem globalAttributes_announce (attrs : PerfEventAttributes) (ids : List UInt64) (a : PerfAttributes) :
    (a.announce attrs ids).globalAttributes = if a.globalAttributes.size = 0 then attrs else a.globalAttributes :=
  (globalAttributes_foldl attrs ids _).trans (apply_ite _ _ _ _)

theorem reads_readIds (bigEndian : Bool) (attrs : PerfEventAttributes) : ∀ (ids : List UInt64) (a : PerfAttributes),
    Reads (readIds bigEndian attrs ids.length a) (ids.flatMap (Layout.u64 bigEndian))
      (ids.foldl (fun a id => a.addAttributes id attrs) a)
  | [], _ => .pure _
  | id :: ids, a => by
    rw [List.flatMap_cons]
    exact (Layout.reads_u64 bigEndian id).bind (reads_readIds bigEndian attrs ids _)

/-- What stands at a place of the table, read over an attribute that has nothing more. -/
theorem run_read_written {w : WrittenEntry} {i : Nat}
    (hheld : HeldAt bytes (h.attrOffset i) (w.attr.layout h.bigEndian ++ Layout.fileSection h.bigEndian w.place))
    (hflags : w.attr.Unswapped h.bigEndian) (hattrs : attrs.Within w.attr.attrs.size) : ∃ rest,
      (attrs.read h.bigEndian).run (bytes.drop (h.attrOffset i).toInt.toNat) =
        (w.attr.attrs, Layout.fileSection h.bigEndian w.place ++ rest) := by
  obtain ⟨rest, hrest⟩ := hheld.isPrefix
  have hnew : attrsAt h bytes i = (w.attr.attrs, Layout.fileSection h.bigEndian w.place ++ rest) := by
    rw [attrsAt, ← hrest, List.append_assoc, ← WrittenAttribute.arrived_eq hflags]
    exact w.attr.reads_read h.bigEndian _
  have hsize : sizeAt h bytes i = w.attr.attrs.size := by
    rw [sizeAt, ← PerfEventAttributes.run_read_size]
    exact congrArg (fun x => x.1.size) hnew
  refine ⟨rest, ?_⟩
  rw [← hnew, ← run_read_attrsAt (f := ⟨bytes, 0⟩) (h := h) (i := i) (hsize.symm ▸ hattrs)
    (hsize.symm ▸ UInt32.not_lt.2 w.attr.size_le)]

/-- A place that can be sought to. -/
theorem seek_held {content : QByteArray} {offset : Int64} (hheld : HeldAt bytes offset content) (hf : f.bytes = bytes) :
    ∃ f', f.seek offset.toInt = some f' ∧ f'.bytes = bytes ∧ f'.unread = bytes.drop offset.toInt.toNat := by
  refine ⟨{ f with pos := offset.toInt.toNat }, if_neg (Int.not_lt.2 hheld.nonneg), hf, ?_⟩
  rw [QFile.unread, hf]

/-- One turn of the loop, at an entry that was written. -/
theorem readTable_entry {w : WrittenEntry} {i : Nat} (n : Nat)
    (hheld : HeldAt bytes (h.attrOffset i) (w.attr.layout h.bigEndian ++ Layout.fileSection h.bigEndian w.place))
    (hidSize : w.place.size.toInt = 8 * w.ids.length)
    (hids : w.ids ≠ [] → HeldAt bytes w.place.offset (w.ids.flatMap (Layout.u64 h.bigEndian)))
    (hflags : w.attr.Unswapped h.bigEndian) (hattrs : attrs.Within w.attr.attrs.size) (hf : f.bytes = bytes)
    (hfirst : i = 0 ↔ a.globalAttributes.size = 0) :
    ∃ f', f'.bytes = bytes ∧ readTable h f (n + 1) i attrs a =
      readTable h f' n (i + 1) w.attr.attrs (a.announce w.attr.attrs w.ids) := by
  obtain ⟨g, hseek, hg, hunread⟩ := seek_held hheld hf
  obtain ⟨rest, hrun⟩ := run_read_written hheld hflags hattrs
  have hplace := Layout.reads_fileSection h.bigEndian w.place rest
  have hsize : ¬w.attr.attrs.size < SIZE_VER0 := UInt32.not_lt.2 w.attr.size_le
  rw [readTable, hseek]
  dsimp only
  rw [hunread, hrun]
  dsimp only
  have hstart : (if i = 0 then a.setGlobalAttributes w.attr.attrs else a) =
      if a.globalAttributes.size = 0 then a.setGlobalAttributes w.attr.attrs else a :=
    if_congr hfirst rfl rfl
  rw [if_neg hsize, hplace, hstart]
  dsimp only
  by_cases hnil : w.ids = []
  · have hnone : ¬w.place.size > 0 := by
      rw [gt_iff_lt, Int64.lt_iff_toInt_lt, hidSize, hnil]
      exact Int.lt_irrefl 0
    rw [if_neg hnone, hnil]
    exact ⟨g.readUpTo rest, hg, rfl⟩
  · have hsome : w.place.size > 0 := by
      have hpos := List.length_pos_of_ne_nil hnil
      rw [gt_iff_lt, Int64.lt_iff_toInt_lt, hidSize, Int64.toInt_zero]
      omega
    have hcount : (w.place.size / 8).toInt.toNat = w.ids.length := by
      rw [Int64.toInt_div_of_ne_right _ _ (by decide), hidSize, show (8 : Int64).toInt = 8 from rfl,
        Int.mul_tdiv_cancel_left _ (by decide), Int.toNat_natCast]
    obtain ⟨g', hseek', hg', hunread'⟩ := seek_held (f := g.readUpTo rest) (hids hnil) hg
    obtain ⟨rest', hrun', -⟩ := (hids hnil).run (reads_readIds h.bigEndian w.attr.attrs w.ids
      (if a.globalAttributes.size = 0 then a.setGlobalAttributes w.attr.attrs else a))
    rw [if_pos hsome, hseek', hcount]
    dsimp only
    rw [hunread', hrun']
    exact ⟨g'.readUpTo rest', hg', rfl⟩

theorem announceAll_cons (w : WrittenEntry) (entries : List WrittenEntry) (a : PerfAttributes) :
    announceAll (w :: entries) a = announceAll entries (a.announce w.attr.attrs w.ids) := rfl

/-- **The loop reads the entries that were written**, and what it reads them into makes no difference. -/
theorem readTable_written : ∀ {entries : List WrittenEntry} {i : Nat} {f : QFile} {attrs : PerfEventAttributes}
    {a : PerfAttributes}, h.EntriesAt bytes i entries → (∀ w ∈ entries, attrs.Within w.attr.attrs.size) →
    f.bytes = bytes → (i = 0 ↔ a.globalAttributes.size = 0) →
    ∃ f', f'.bytes = bytes ∧ readTable h f entries.length i attrs a = (true, announceAll entries a, f')
  | [], _, f, _, _, _, _, hf, _ => ⟨f, hf, rfl⟩
  | w :: entries, i, f, attrs, a, hentries, hattrs, hf, hfirst => by
    obtain ⟨f', hf', hstep⟩ := readTable_entry (i := i) entries.length (hentries.held 0 w rfl)
      (hentries.idSize w List.mem_cons_self) (hentries.ids w List.mem_cons_self)
      (hentries.unswapped w List.mem_cons_self) (hattrs w List.mem_cons_self) hf hfirst
    have hwithin : ∀ w' ∈ entries, w.attr.attrs.Within w'.attr.attrs.size := fun w' hw =>
      w.attr.within.mono ((List.pairwise_cons.1 hentries.sorted).1 w' hw)
    have hsize : (a.announce w.attr.attrs w.ids).globalAttributes.size ≠ 0 := by
      rw [globalAttributes_announce]
      split
      · exact w.attr.size_ne_zero
      · assumption
    obtain ⟨f'', hf'', hrest⟩ := readTable_written hentries.tail hwithin hf'
      (iff_of_false (Nat.succ_ne_zero i) hsize)
    exact ⟨f'', hf'', by rw [List.length_cons, hstep, hrest, announceAll_cons]⟩

/-- **The attributes of a file are those that were written.** -/
theorem read_written {entries : List WrittenEntry} (hattrs : h.FileAttributes bytes entries) (hf : f.bytes = bytes) :
    ∃ f', f'.bytes = bytes ∧ read h f {} = (true, announceAll entries {}, f') := by
  have hsize : ¬h.attrSize.toInt < SIZE_VER0.toNat + 16 := Int.not_lt.2 hattrs.attrSize
  unfold read
  rw [if_neg hsize, hattrs.numAttrs]
  exact readTable_written hattrs.entriesAt (fun w _ => PerfEventAttributes.within_default _) hf (iff_of_true rfl rfl)

end PerfAttributes

/-! ## Features -/

/-- The places of the features, in the order in which the table has them. -/
def PerfHeader.sections (h : PerfHeader) (places : Feature → PerfFileSection) : List (Feature × PerfFileSection) :=
  (h.announced.filter fun feature => (places feature).size > 0).map fun feature => (feature, places feature)

namespace PerfFeatureSections

variable {h : PerfHeader} {bytes arch : QByteArray} {places : Feature → PerfFileSection} {δ : Type} {E : Env δ}
  {w : WrittenFeatures} {fuel : Nat} {f : QFile}

theorem reads_readTable (bigEndian : Bool) (places : Feature → PerfFileSection) : ∀ features : List Feature,
    Reads (readTable bigEndian features) (features.flatMap fun feature => Layout.fileSection bigEndian (places feature))
      ((features.filter fun feature => (places feature).size > 0).map fun feature => (feature, places feature))
  | [] => .pure []
  | feature :: features => by
    rw [List.flatMap_cons]
    refine (Layout.reads_fileSection bigEndian (places feature)).bind <|
      ((reads_readTable bigEndian places features).map _).of_eq rfl ?_
    rw [List.filter_cons]
    simp only [decide_eq_true_eq]
    split <;> rfl

/-- The table is behind the data. -/
theorem table_eq (hbig : E.bigEndian = h.bigEndian) (hf : f.bytes = bytes)
    (htable : HeldAt bytes h.featureOffset
      (h.announced.flatMap fun feature => Layout.fileSection h.bigEndian (places feature))) :
    table E h f = h.sections places := by
  obtain ⟨rest, hrun, -⟩ := htable.run (reads_readTable h.bigEndian places h.announced)
  rw [table, hbig, hf, hrun]
  rfl

/-- **The features of a file are those that were written**, in whatever order their sections are read. -/
theorem read_written {iterate : List (Feature × PerfFileSection) → List (Feature × PerfFileSection)}
    (hiterate : ∀ l, (iterate l).Perm l) (hbig : E.bigEndian = h.bigEndian)
    (hparse : E.parseTracingData = PerfTracingData.parse) (hf : f.bytes = bytes)
    (htable : HeldAt bytes h.featureOffset
      (h.announced.flatMap fun feature => Layout.fileSection h.bigEndian (places feature)))
    (hfeatures : w.At h.bigEndian bytes arch (h.sections places)) (hfuel : w.buildIds.length ≤ fuel) :
    ∃ f', f'.bytes = bytes ∧ read E iterate fuel h f { arch } = some (true, w.written, f') := by
  have hsections := table_eq hbig hf htable
  have hnodup := nodup_table E h f
  rw [hsections] at hnodup
  have hoffsets : ∀ p ∈ h.sections places, 0 ≤ p.2.offset.toInt := fun p hp =>
    (hfeatures.held p.1 p.2 ((lookup_eq_some_iff_mem hnodup).2 hp)).nonneg
  have hgather : (h.sections places).foldlM (readPlace E fuel bytes) { arch } = some w.written := by
    rw [foldlM_readPlace_eq E fuel bytes _ hnodup]
    exact WrittenFeatures.gather_eq E (hbig.symm ▸ hfeatures) hparse hfuel
  have hread := read_fst E hiterate fuel h f { arch } htable.nonneg (hsections.symm ▸ hoffsets)
  rw [hsections, hf, hgather, Option.map_some] at hread
  obtain ⟨⟨ok, s, f'⟩, hsome, heq⟩ := Option.map_eq_some_iff.1 hread
  obtain ⟨rfl, rfl⟩ := Prod.mk.inj heq
  exact ⟨f', (read_bytes hsome).trans hf, hsome⟩

end PerfFeatureSections

/-! ## Events -/

namespace PerfData

variable {δ : Type} {E : Env δ} {d d' : PerfData δ} {events : QByteArray}

theorem processEvents_record (depth : Nat) (sequential : Bool) {d₁ : PerfData δ} {header : PerfEventHeader}
    {content : QByteArray} (h0 : d.eventHeader.size = 0) (hsize : PerfEventHeader.fixedLength ≤ header.size)
    (htracing : header.eventType ≠ .headerTracingData) (hcompressed : header.eventType ≠ .compressed)
    (hlen : content.length = header.contentSize)
    (hread : Reads (readEvent E { d with eventHeader := header }) content d₁) (rest : QByteArray) :
    processEvents E depth sequential ⟨d, Layout.header E.bigEndian header ++ (content ++ rest)⟩ =
      (.SignalFinished, ⟨d₁.clearEventSize, rest⟩) := by
  obtain ⟨nested, hnested⟩ := exists_nested E depth
  rw [hnested]
  exact processEvent_record E h0 hsize htracing hcompressed hlen hread rest

/-- The loop over the section stops where the events do. -/
theorem readSectionEvents_records (depth : Nat) {endOfDataSection : Int} (h : Records E d events d')
    (h0 : d.eventHeader.size = 0) (more : QByteArray) : ∀ (fuel pos : Nat), pos + events.length = endOfDataSection → events.length < fuel →
      readSectionEvents E depth endOfDataSection fuel pos ⟨d, events ++ more⟩ = (.SignalFinished, ⟨d', more⟩) := by
  induction h with
  | nil =>
    intro fuel pos hend hfuel
    obtain ⟨fuel, rfl⟩ := Nat.exists_eq_add_of_lt hfuel
    rw [List.length_nil] at hend
    exact if_neg (by omega)
  | @cons d d₁ d' header content rest hsize htracing hcompressed hlen hread hrest ih =>
    intro fuel pos hend hfuel
    have hhere := processEvents_record depth false h0 hsize htracing hcompressed hlen hread (rest ++ more)
    rw [← List.append_assoc, ← List.append_assoc, List.append_assoc _ content rest] at hhere
    cases fuel with
    | zero => exact absurd hfuel (Nat.not_lt_zero _)
    | succ fuel =>
      rw [List.length_append, List.length_append, Layout.length_header] at hend hfuel
      rw [readSectionEvents, if_pos (by omega), hhere]
      refine ih rfl fuel _ ?_ (by omega)
      simp only [List.length_append, Layout.length_header]
      omega

/-- **The events of a file are read to their end**, whatever is behind them. -/
theorem readFile_written (depth : Nat) {h : PerfHeader} {bytes : QByteArray} {f : QFile} (hrecords : Records E d events d')
    (h0 : d.eventHeader.size = 0) (hf : f.bytes = bytes) (hdata : HeldAt bytes h.data.offset events)
    (hsize : h.data.size.toInt = events.length) (hfits : bytes.length < 2 ^ 63) :
    readFile E depth h f d = (some .finished, d') := by
  obtain ⟨more, hmore⟩ := hdata.isPrefix
  have hseek : f.seek h.data.offset.toInt = some ⟨bytes, h.data.offset.toInt.toNat⟩ :=
    hf ▸ if_neg (Int.not_lt.2 hdata.nonneg)
  have hoffset : h.data.offset.toInt = h.data.offset.toInt.toNat := (Int.toNat_of_nonneg hdata.nonneg).symm
  have hlt : h.data.offset.toInt.toNat + events.length < 2 ^ 63 := by
    have hlen := hdata.isPrefix.length_le
    have := h.data.offset.toInt_lt
    rw [List.length_drop] at hlen
    omega
  have hend := toInt_add_of_lt hoffset hsize hlt
  have hloop := readSectionEvents_records depth hrecords h0 more ((events ++ more).length + 2)
    h.data.offset.toInt.toNat hend.symm (by rw [List.length_append]; omega)
  have hunread : QFile.unread ⟨bytes, h.data.offset.toInt.toNat⟩ = events ++ more := hmore.symm
  unfold readFile doReadFile
  rw [hseek]
  dsimp only
  rw [hunread, hloop]

theorem Records.noHeader (h : Records E d events d') : d.eventHeader.size = 0 → d'.eventHeader.size = 0 := by
  induction h with
  | nil => exact id
  | cons _ _ _ _ _ _ ih => exact fun _ => ih rfl

/-- Records take what they announce. -/
theorem Records.framed (depth : Nat) (h : Records E d events d') (h0 : d.eventHeader.size = 0) :
    Framed E depth ⟨d, events⟩ := by
  induction h with
  | nil => exact .done rfl
  | @cons d d₁ d' header content rest hsize htracing hcompressed hlen hread hrest ih =>
    refine .event ?_ (processEvents_record depth true h0 hsize htracing hcompressed hlen hread rest) ?_ (ih rfl)
    · exact List.append_ne_nil_of_left_ne_nil (List.ne_nil_of_length_pos (by rw [Layout.length_header]; decide)) _
    · rw [started_header E h0]
      have hplain : ¬isTracing (⟨{ d with eventHeader := header }, content ++ rest⟩ : Reading δ) := fun h => htracing h.1
      unfold TakesContent
      rw [if_neg hplain, List.length_append, ← hlen]
      exact Nat.add_comm _ _

end PerfData

/-! ## The program -/

namespace Application

variable {δ : Type} {P : Platform δ} {h : PerfHeader} {bytes events : QByteArray} {entries : List WrittenEntry}
  {places : Feature → PerfFileSection} {w : WrittenFeatures} {ops : List Op} {attributes a' : PerfAttributes}

/-- What is announced before the events. -/
def announced (P : Platform δ) (features : PerfFeatureSections) (attributes : PerfAttributes) : List Op :=
  .features features.toPerfFeatures ::
    (P.iterateAttributes attributes.attributes.entries).map fun (id, attrs) => .attr { attr := attrs, ids := [id] }

theorem foldl_dispatch (l : List (UInt64 × PerfEventAttributes)) : ∀ d : PerfData δ,
    l.foldl (fun d (id, attrs) => d.dispatch (.attr { attr := attrs, ids := [id] })) d =
      { d with dispatched := d.dispatched ++ l.map fun (id, attrs) => .attr { attr := attrs, ids := [id] } } := by
  induction l with
  | nil => exact fun d => by rw [List.foldl_nil, List.map_nil, List.append_nil]
  | cons p l ih =>
    intro d
    rw [List.foldl_cons, ih, List.map_cons]
    simp only [PerfData.dispatch, List.append_assoc, List.singleton_append]

/-- The program when it has read what is in front of the events. -/
def opened (P : Platform δ) (h : PerfHeader) (features : PerfFeatureSections) (attributes : PerfAttributes) :
    Application δ :=
  { header := h, features, compressed := features.compressed,
    data := { attributes, dispatched := announced P features attributes } }

theorem announce_eq (features : PerfFeatureSections) (compressed : PerfCompressed) (attributes : PerfAttributes) :
    announce P { header := h, features, compressed, data := { attributes } } =
      { header := h, features, compressed, data := { attributes, dispatched := announced P features attributes } } := by
  unfold announce
  rw [foldl_dispatch]
  rfl

/-- The file has everything where the header says, and data that can be parsed. -/
structure WrittenFile (P : Platform δ) (h : PerfHeader) (bytes : QByteArray) (entries : List WrittenEntry)
    (places : Feature → PerfFileSection) (w : WrittenFeatures) (events : QByteArray) : Prop where
  header : h.FileHeader bytes
  attributes : h.FileAttributes bytes entries
  table : HeldAt bytes h.featureOffset
    (h.announced.flatMap fun feature => Layout.fileSection h.bigEndian (places feature))
  features : w.At h.bigEndian bytes P.arch (h.sections places)
  buildIds : w.buildIds.length ≤ P.fuel
  compressed : h.hasFeature Feature.compressed.number → w.features.compressed.accepted = true
  arch : archByName w.features.arch ≠ none
  data : HeldAt bytes h.data.offset events
  dataSize : h.data.size.toInt = events.length
  more : h.size.toInt < bytes.length
  fits : bytes.length < 2 ^ 63

/-- A file that does not announce compressed records has nothing to say of them. -/
theorem compressed_of_absent (hfeatures : w.At h.bigEndian bytes P.arch (h.sections places))
    (habsent : ¬h.hasFeature Feature.compressed.number) : w.features.compressed = {} := by
  have hnone : (h.sections places).lookup .compressed = none := by
    rw [List.lookup_eq_none_iff]
    intro p hp
    obtain ⟨feature, hfeature, rfl⟩ := List.mem_map.1 hp
    have hannounced := (List.mem_filter.1 (List.mem_filter.1 hfeature).1).2
    exact bne_iff_ne.2 fun heq => habsent (heq ▸ hannounced)
  exact congrArg PerfFeatureSections.compressed (hfeatures.absent .compressed hnone)

theorem acceptFeatures_eq {features : PerfFeatureSections} (attributes : PerfAttributes)
    (hcompressed : h.hasFeature Feature.compressed.number → features.compressed.accepted = true)
    (habsent : ¬h.hasFeature Feature.compressed.number → features.compressed = {}) :
    acceptFeatures P { header := h, features, data := { attributes } } = opened P h features attributes := by
  unfold acceptFeatures
  dsimp only
  split
  · rename_i hthere
    rw [if_pos (hcompressed hthere)]
    exact announce_eq features features.compressed attributes
  · rename_i hthere
    refine (announce_eq features {} attributes).trans ?_
    rw [← habsent hthere]
    rfl

/-- **What is in front of the events is announced as it was written.** -/
theorem readFileHeader_written (hfile : WrittenFile P h bytes entries places w events) (pos : Nat) :
    (started P h).readFileHeader P ⟨bytes, pos⟩ =
      some (opened P h w.written (PerfAttributes.announceAll entries {}), ⟨bytes, pos⟩) := by
  obtain ⟨f', hf', hattributes⟩ := PerfAttributes.read_written (f := ⟨bytes, pos⟩) hfile.attributes rfl
  obtain ⟨f'', hf'', hfeatures⟩ := PerfFeatureSections.read_written
    (E := env P { started P h with data := { attributes := PerfAttributes.announceAll entries {} } })
    P.iterateSections_perm rfl rfl hf' hfile.table hfile.features hfile.buildIds
  have haccepted : acceptFeatures P { header := h, features := w.written, data :=
      { attributes := PerfAttributes.announceAll entries {} } } = _ :=
    acceptFeatures_eq _ hfile.compressed (compressed_of_absent hfile.features)
  have hread : PerfAttributes.read (started P h).header ⟨bytes, pos⟩ (started P h).data.attributes =
      (true, PerfAttributes.announceAll entries {}, f') := hattributes
  unfold readFileHeader
  dsimp only
  rw [hread]
  refine (congrArg (Option.map _) hfeatures).trans ?_
  rw [Option.map_some, ← haccepted, ← hf'']
  rfl

theorem close_events {a : Application δ} {unread : QByteArray} {signal : PerfData.Signal} {r : Reading δ}
    (h : PerfData.finishReading (a.env P) P.depth true true ⟨a.data, unread⟩ = (signal, r)) :
    close P (.events a unread) = some (a.receive signal r.data) := by
  rw [close, h]

/-- **A stream of events is read as what was written**, however it arrives. -/
theorem runStream_written {chunks : List QByteArray} (hknown : h.Known) (hpipe : h.size.toInt = 16)
    (hchunks : chunks.flatten = h.openingLayout ++ events) (harch : archByName P.arch ≠ none)
    (hevents : WrittenEvents h.bigEndian {} events ops a') :
    ∃ a, runStream P chunks = some a ∧ a.exitCode = some .NoError ∧ a.data.dispatched = ops ∧
      a.data.attributes = a' := by
  let h' : PerfHeader := { magic := h.magic, size := h.size }
  have hpipe' : h'.isPipe = true := decide_eq_true hpipe
  have hread : PerfHeader.read none ⟨{}, chunks.flatten⟩ = (some .finished, ⟨h', events⟩) := by
    rw [hchunks, PerfHeader.read_openingLayout hknown rfl, PerfHeader.readFile_pipe hpipe']
  obtain ⟨d', hrecords, hops, hattributes⟩ := PerfData.records ((started P h').env P) hevents (d := {}) rfl
  have hall := PerfData.readAll_records ((started P h').env P) P.depth true hrecords rfl
  have hparsed : PerfData.read ((started P h').env P) P.depth true true ⟨{}, events⟩ = (none, ⟨d', []⟩) := by
    rw [PerfData.read_eq, hall]
    rfl
  have hfinished : PerfData.finishReading ((started P h').env P) P.depth true true ⟨d', []⟩ = (.finished, ⟨d', []⟩) :=
    (PerfData.finishReading_of_exhausted _ (.inl rfl) true).trans
      (congrArg (·, (⟨d', []⟩ : Reading δ)) (if_pos (hrecords.noHeader rfl)))
  have hevents : runStream P chunks = close P ((started P h').ofEvents (none, ⟨d', []⟩)) := by
    rw [← hparsed]
    exact (runStream_eq hread hpipe' (hrecords.framed P.depth rfl)).trans (congrArg (close P) (if_neg harch))
  exact ⟨exit { started P h' with data := d' } .NoError,
    hevents.trans (close_events (a := { started P h' with data := d' }) hfinished), rfl, hops, hattributes⟩

/-- The header of a file with two attributes, a command, a sample and a host name. -/
def writtenHeader : PerfHeader :=
  { magic := PerfHeader.magicSwitched, size := 104, attrSize := 88, attrs := ⟨104, 176⟩, data := ⟨296, 36⟩,
    features := [8, 0, 0, 0] }

/-- The attribute of the oldest version, which the id 5 belongs to. -/
def oldestEntry : WrittenEntry where
  attr :=
    { attrs := { type := 1, size := 64, config := 9, sampleType := 1 }, version := .inl rfl,
      within := by constructor <;> exact fun _ => rfl, length_newer := by decide }
  ids := [5]
  place := ⟨280, 8⟩

/-- One of the next version, which the id 6 belongs to. -/
def nextEntry : WrittenEntry where
  attr :=
    { attrs := { type := 1, size := 72, config := 3, sampleType := 1, bpLen := 4 }, version := .inr (.inl rfl),
      within := by constructor <;> first | exact fun _ => rfl | exact fun h => absurd h (by decide),
      length_newer := by decide }
  ids := [6]
  place := ⟨288, 8⟩

def writtenAttributes : PerfAttributes := PerfAttributes.announceAll [oldestEntry, nextEntry] {}

def writtenComm : PerfRecordComm := { pid := 5, tid := 6, comm := [115, 104] }

def writtenSample : PerfRecordSample := { ip := 0x1000 }

/-- A command and a sample among some attributes. -/
def writtenEvents (a : PerfAttributes) : QByteArray :=
  Layout.header false { type := 3, size := 20 } ++
    (writtenComm.layout false a.globalAttributes.sampleType a.globalAttributes.sampleIdAll 2 ++
      (Layout.header false { type := 9, size := 16 } ++
        (writtenSample.layout false (a.ofSample writtenSample.sampleId.id) 0 ++ [])))

def writtenOps (a : PerfAttributes) : List Op :=
  [.comm { writtenComm with toPerfRecord := a.decoded { type := 3, size := 20 } {} },
    .sample (writtenSample.decoded { type := 9, size := 16 } (a.ofSample writtenSample.sampleId.id) 0 id)]

theorem writtenEvents_written {a : PerfAttributes} (h : a.globalAttributes = oldestEntry.attr.attrs) :
    WrittenEvents false a (writtenEvents a) (writtenOps a) a := by
  have hsample : a.ofSample writtenSample.sampleId.id = oldestEntry.attr.attrs := by
    rw [PerfAttributes.ofSample, h]
    exact if_neg (by decide)
  refine .cons ?_ (.comm writtenComm 2 (by decide) (by decide)) (.cons ?_ (.sample writtenSample 0 (by decide) ?_ ?_ ?_) .nil)
  · rw [h]
    decide +kernel
  · rw [hsample]
    decide +kernel
  · rw [hsample, h]
  · rw [hsample]
    constructor <;> decide +kernel
  · decide

def writtenFeatures : WrittenFeatures where
  features := { hostName := [104], arch := QByteArray.ofString "x86" }
  zeros _ := 1
  tracingBlob := []
  buildIds := []
  eventSize := 0
  eventDescs := []

def writtenPlaces : Feature → PerfFileSection
  | .hostname => ⟨348, 6⟩
  | _ => {}

def writtenBytes : QByteArray :=
  writtenHeader.openingLayout ++ writtenHeader.fieldsLayout ++
    (oldestEntry.attr.layout false ++ Layout.fileSection false oldestEntry.place ++ List.replicate 8 0) ++
    (nextEntry.attr.layout false ++ Layout.fileSection false nextEntry.place) ++ Layout.u64 false 5 ++ Layout.u64 false 6 ++
    writtenEvents writtenAttributes ++ Layout.fileSection false (writtenPlaces .hostname) ++ writtenFeatures.layout false .hostname

theorem sections_writtenPlaces : writtenHeader.sections writtenPlaces = [(.hostname, ⟨348, 6⟩)] := by decide +kernel

theorem writtenFeatures_at : writtenFeatures.At false writtenBytes (QByteArray.ofString "x86")
    [(.hostname, ⟨348, 6⟩)] where
  fits := by
    constructor
    case tracingBlob => decide
    case cmdline | eventDescs | siblingCores | siblingThreads | numaTopology | pmuMappings | groupDescs =>
      exact ⟨by decide, fun _ h => absurd h List.not_mem_nil⟩
    all_goals exact ⟨by decide +kernel, by decide +kernel⟩
  absent feature h := by
    cases feature with
    | hostname => cases h
    | tracingData => decide +kernel
    | _ => rfl
  unswapped e he := absurd he List.not_mem_nil
  size feature place h := by
    obtain ⟨rfl, rfl⟩ := Prod.mk.inj (List.mem_singleton.1 ((lookup_eq_some_iff_mem (by decide)).1 h))
    decide +kernel
  held feature place h := by
    obtain ⟨rfl, rfl⟩ := Prod.mk.inj (List.mem_singleton.1 ((lookup_eq_some_iff_mem (by decide)).1 h))
    exact ⟨by decide +kernel, by decide +kernel⟩

theorem writtenFile : WrittenFile plainPlatform writtenHeader writtenBytes [oldestEntry, nextEntry] writtenPlaces
    writtenFeatures (writtenEvents writtenAttributes) where
  header := ⟨.inr rfl, rfl, by decide +kernel, by decide +kernel, by decide +kernel, by decide +kernel, by decide +kernel⟩
  attributes :=
    { attrSize := by decide +kernel
      size := by decide +kernel
      entriesAt :=
        { held := fun
            | 0, w, hw => by
              cases hw
              exact ⟨by decide +kernel, by decide +kernel⟩
            | 1, w, hw => by
              cases hw
              exact ⟨by decide +kernel, by decide +kernel⟩
            | j + 2, w, hw => by cases hw
          idSize := fun w hw => by
            rcases List.mem_pair.1 hw with rfl | rfl <;> decide +kernel
          ids := fun w hw _ => by
            rcases List.mem_pair.1 hw with rfl | rfl <;> exact ⟨by decide +kernel, by decide +kernel⟩
          sorted := .cons (fun w hw => by rw [List.mem_singleton.1 hw]; decide) (List.pairwise_singleton _ _)
          unswapped := fun _ _ h => absurd h (by decide +kernel) } }
  table := ⟨by decide +kernel, by decide +kernel⟩
  features := sections_writtenPlaces ▸ writtenFeatures_at
  buildIds := by decide +kernel
  compressed h := absurd h (by decide +kernel)
  arch := by decide +kernel
  data := ⟨by decide +kernel, by decide +kernel⟩
  dataSize := by decide +kernel
  more := by decide +kernel
  fits := by decide +kernel

/-- What is known behind an attribute event. -/
def streamedAttributes : PerfAttributes := PerfAttributes.announce {} oldestEntry.attr.attrs [5]

/-- An attribute event, and the events that are laid out as it says. -/
def streamedEvents : QByteArray :=
  Layout.header false { type := 64, size := 80 } ++
    ((oldestEntry.attr.layout false ++ [5].flatMap (Layout.u64 false)) ++ writtenEvents streamedAttributes)

theorem runStream_written_sample :
    let bytes := pipeHeader ++ streamedEvents
    ∃ a, runStream plainPlatform [bytes.take 9, (bytes.drop 9).take 93, bytes.drop 102] = some a ∧
      a.exitCode = some .NoError ∧
      a.data.dispatched =
        .attr { header := { type := 64, size := 80 }, attr := oldestEntry.attr.attrs, ids := [5] } ::
          writtenOps streamedAttributes ∧
      a.data.attributes = streamedAttributes :=
  runStream_written (h := { magic := PerfHeader.magicSwitched, size := 16 }) (.inr rfl) rfl (by decide +kernel)
    (by decide +kernel) <|
      .cons (by decide +kernel) (.attr oldestEntry.attr [5] rfl fun h => absurd h (by decide))
        (writtenEvents_written (by decide +kernel))

end Application

end PerfParser
