import PerfParser.Streams
/-!
# BufferedFile — a file that arrives as a stream (`bufferSequentialData`)

The buffer file is the file with zeros for its header.  Nothing that is read of a file is in its header where its tables and
sections are behind it (`SectionsBehind`), so the program makes the same of both (`runStream_file`).
-/
namespace PerfParser

open QDataStream Reader
open PerfHeader (Feature)
open PerfRegisterInfo (archByName)

/-! ## Files that are the same behind a position -/

/-- The files are the same from a position on, and there is something left of either or of neither. -/
structure QFile.Alike (m : Nat) (f f' : QFile) : Prop where
  behind : f.bytes.drop m = f'.bytes.drop m
  left : f.unread = [] ↔ f'.unread = []

/-- They have been read up to the same place behind it. -/
structure QFile.Same (m : Nat) (f f' : QFile) : Prop where
  behind : f.bytes.drop m = f'.bytes.drop m
  pos : f.pos = f'.pos
  le : m ≤ f.pos

namespace QFile

variable {m : Nat} {f f' : QFile}

@[simp] theorem readUpTo_bytes (f : QFile) (unread : QByteArray) : (f.readUpTo unread).bytes = f.bytes := rfl

theorem drop_eq_of_le {bytes bytes' : QByteArray} (h : bytes.drop m = bytes'.drop m) {pos : Nat} (hle : m ≤ pos) :
    bytes.drop pos = bytes'.drop pos := by
  obtain ⟨k, rfl⟩ := Nat.exists_eq_add_of_le hle
  rw [← List.drop_drop, ← List.drop_drop, h]

theorem Same.unread_eq (h : Same m f f') : f.unread = f'.unread := by
  unfold unread
  rw [← h.pos, drop_eq_of_le h.behind h.le]

theorem Same.alike (h : Same m f f') : Alike m f f' := ⟨h.behind, by rw [h.unread_eq]⟩

theorem Same.readUpTo (h : Same m f f') (unread : QByteArray) : Same m (f.readUpTo unread) (f'.readUpTo unread) where
  behind := h.behind
  pos := by
    unfold QFile.readUpTo
    dsimp only
    rw [h.unread_eq, h.pos]
  le := Nat.le_add_right_of_le h.le

/-- Both can be sought to a place behind the position. -/
theorem seek_same (h : f.bytes.drop m = f'.bytes.drop m) {pos : Int} (hpos : m ≤ pos) :
    ∃ g g', f.seek pos = some g ∧ f'.seek pos = some g' ∧ Same m g g' ∧ g.unread = f.bytes.drop pos.toNat :=
  ⟨⟨f.bytes, pos.toNat⟩, ⟨f'.bytes, pos.toNat⟩, if_neg (by omega), if_neg (by omega), ⟨h, rfl, by dsimp only; omega⟩, rfl⟩

end QFile

open QFile (Alike Same)

/-! ## Attributes -/

namespace PerfAttributes

open PerfEventAttributes (SIZE_VER0)

variable {h : PerfHeader} {m : Nat}

/-- What the loop makes of two files that are the same where the table and the ids are. -/
theorem readTable_alike : ∀ (n i : Nat) {f f' : QFile} (attrs : PerfEventAttributes) (a : PerfAttributes),
    Alike m f f' → (∀ j, i ≤ j → j < i + n → m ≤ (h.attrOffset j).toInt) →
    (∀ j, i ≤ j → j < i + n → 0 < (idSection h f.bytes j).size → m ≤ (idSection h f.bytes j).offset.toInt) →
    ∃ ok a' g g', readTable h f n i attrs a = (ok, a', g) ∧ readTable h f' n i attrs a = (ok, a', g') ∧ Alike m g g'
  | 0, _, f, f', _, a, halike, _, _ => ⟨true, a, f, f', rfl, rfl, halike⟩
  | n + 1, i, f, f', attrs, a, halike, hattrs, hids => by
    obtain ⟨g, g', hg, hg', hsame, hunread⟩ := QFile.seek_same halike.behind (hattrs i (Nat.le_refl i) (by omega))
    have hsection : ((PerfFileSection.read h.bigEndian).run ((attrs.read h.bigEndian).run g.unread).2).1 =
        idSection h f.bytes i := by
      rw [idSection, attrsAt, hunread, PerfEventAttributes.run_read_snd, PerfEventAttributes.run_read_snd]
    rw [readTable, readTable, hg, hg']
    dsimp only
    rw [← hsame.unread_eq]
    generalize (attrs.read h.bigEndian).run g.unread = read at hsection ⊢
    obtain ⟨attrs, unread⟩ := read
    dsimp only at hsection ⊢
    by_cases hsize : attrs.size < SIZE_VER0
    · rw [if_pos hsize, if_pos hsize]
      exact ⟨_, _, _, _, rfl, rfl, (hsame.readUpTo unread).alike⟩
    · rw [if_neg hsize, if_neg hsize]
      generalize (PerfFileSection.read h.bigEndian).run unread = ids at hsection ⊢
      obtain ⟨ids, unread'⟩ := ids
      dsimp only at hsection ⊢
      subst hsection
      have hread := hsame.readUpTo unread'
      have hbytes : g.bytes = f.bytes := QFile.seek_bytes hg
      by_cases hpositive : (idSection h f.bytes i).size > 0
      · rw [if_pos hpositive, if_pos hpositive]
        obtain ⟨e, e', he, he', hsame', -⟩ := QFile.seek_same hread.behind
          (hids i (Nat.le_refl i) (by omega) hpositive)
        rw [he, he']
        dsimp only
        rw [← hsame'.unread_eq]
        generalize Reader.run _ e.unread = found
        have hfound := hsame'.readUpTo found.2
        have hbytes' : e.bytes = f.bytes := (QFile.seek_bytes he).trans hbytes
        exact readTable_alike n (i + 1) attrs found.1 hfound.alike (fun j hij hj => hattrs j (by omega) (by omega))
          (by rw [QFile.readUpTo_bytes, hbytes']; exact fun j hij hj => hids j (by omega) (by omega))
      · rw [if_neg hpositive, if_neg hpositive]
        exact readTable_alike n (i + 1) attrs _ hread.alike (fun j hij hj => hattrs j (by omega) (by omega))
          (by rw [QFile.readUpTo_bytes, hbytes]; exact fun j hij hj => hids j (by omega) (by omega))

end PerfAttributes

/-! ## Features -/

namespace PerfFeatureSections

variable {δ : Type} {E : Env δ} {fuel : Nat} {m : Nat}

theorem rel_map {α β : Type} {r : α → α → Prop} {r' : β → β → Prop} {g : α → β} (h : ∀ x x', r x x' → r' (g x) (g x')) :
    ∀ {o o' : Option α}, Option.Rel r o o' → Option.Rel r' (o.map g) (o'.map g)
  | _, _, .none => .none
  | _, _, .some hr => .some (h _ _ hr)

/-- The same was read of both. -/
def SameRead (m : Nat) (x x' : PerfFeatureSections × QFile) : Prop := x.1 = x'.1 ∧ Same m x.2 x'.2

theorem createFeature_same {x x' : PerfFeatureSections × QFile} (h : SameRead m x x') {p : Feature × PerfFileSection}
    (hp : m ≤ p.2.offset.toInt) :
    Option.Rel (SameRead m) (createFeature E fuel x p) (createFeature E fuel x' p) := by
  obtain ⟨hfst, hsame⟩ := h
  obtain ⟨g, g', hg, hg', hsame', -⟩ := QFile.seek_same hsame.behind hp
  unfold createFeature
  dsimp only
  rw [hg, hg', Option.getD_some, Option.getD_some, ← hsame'.unread_eq, hfst]
  cases readSection E fuel p.1 p.2.size x'.1 g.unread with
  | none => exact .none
  | some r => exact .some ⟨rfl, hsame'.readUpTo r.2⟩

theorem foldlM_createFeature_same : ∀ {l : List (Feature × PerfFileSection)} {x x' : PerfFeatureSections × QFile},
    SameRead m x x' → (∀ p ∈ l, m ≤ p.2.offset.toInt) →
    Option.Rel (SameRead m) (l.foldlM (createFeature E fuel) x) (l.foldlM (createFeature E fuel) x')
  | [], _, _, h, _ => .some h
  | p :: l, x, x', h, hl => by
    rw [List.foldlM_cons, List.foldlM_cons]
    have hp : Option.Rel (SameRead m) (createFeature E fuel x p) (createFeature E fuel x' p) :=
      createFeature_same h (hl p List.mem_cons_self)
    generalize createFeature E fuel x p = y at hp
    generalize createFeature E fuel x' p = y' at hp
    cases hp with
    | none => exact .none
    | some hy => exact foldlM_createFeature_same hy (fun q hq => hl q (List.mem_cons_of_mem p hq))

theorem read_same (fuel : Nat) {iterate : List (Feature × PerfFileSection) → List (Feature × PerfFileSection)}
    (hiterate : ∀ l, (iterate l).Perm l) {h : PerfHeader} {f f' : QFile} (hbehind : f.bytes.drop m = f'.bytes.drop m)
    (hfeatures : m ≤ h.featureOffset.toInt) (hsections : ∀ p ∈ table E h f, m ≤ p.2.offset.toInt)
    (s : PerfFeatureSections) :
    Option.Rel (fun x x' => x.1 = true ∧ x'.1 = true ∧ SameRead m x.2 x'.2) (read E iterate fuel h f s)
      (read E iterate fuel h f' s) := by
  obtain ⟨g, g', hg, hg', hsame, hunread⟩ := QFile.seek_same hbehind hfeatures
  have htable : ((readTable E.bigEndian h.announced).run g.unread).1 = table E h f := by rw [table, hunread]
  unfold read
  rw [hg, hg']
  dsimp only
  rw [← hsame.unread_eq]
  refine rel_map (r := SameRead m) (fun x x' hsame => ⟨rfl, rfl, hsame⟩)
    (foldlM_createFeature_same ⟨rfl, hsame.readUpTo _⟩ fun p hp => hsections p ?_)
  rw [← htable]
  exact (hiterate _).mem_iff.1 hp

end PerfFeatureSections

/-! ## Events -/

theorem PerfData.readFile_alike {δ : Type} {E : Env δ} {depth m : Nat} {h : PerfHeader} {f f' : QFile}
    (hbehind : f.bytes.drop m = f'.bytes.drop m) (hdata : m ≤ h.data.offset.toInt) (d : PerfData δ) :
    readFile E depth h f d = readFile E depth h f' d := by
  obtain ⟨g, g', hg, hg', hsame, -⟩ := QFile.seek_same hbehind hdata
  unfold readFile doReadFile
  rw [hg, hg']
  dsimp only
  rw [hsame.unread_eq, hsame.pos]

/-! ## The program -/

/-- What is read of a file is behind a position. -/
structure SectionsBehind (m : Nat) (h : PerfHeader) (bytes : QByteArray) : Prop where
  attrs : ∀ i < h.numAttrs.toInt.toNat, m ≤ (h.attrOffset i).toInt
  ids : ∀ i < h.numAttrs.toInt.toNat, 0 < (PerfAttributes.idSection h bytes i).size →
    m ≤ (PerfAttributes.idSection h bytes i).offset.toInt
  data : m ≤ h.data.offset.toInt
  features : m ≤ h.featureOffset.toInt
  sections : ∀ p ∈ ((PerfFeatureSections.readTable h.bigEndian h.announced).run
    (bytes.drop h.featureOffset.toInt.toNat)).1, m ≤ p.2.offset.toInt

/-- A file whose header is read is one that arrives as a stream, too. -/
theorem PerfHeader.readFile_of_stream {size : Int} {bigEndian : Bool} {r r' : Reading}
    (h : readFile (some size) bigEndian r = (some .finished, r')) :
    readFile none bigEndian r = (some .finished, r') := by
  rw [← h]
  unfold readFile at h ⊢
  dsimp only at h ⊢
  split
  · rfl
  · rename_i hsmall
    rw [if_neg hsmall] at h
    split
    · rename_i hlarge
      rw [if_pos hlarge] at h
      split at h
      · cases h
      · rename_i hlen
        rw [tooSmall_none, if_neg Bool.false_ne_true, if_neg hlen]
        split
        · rfl
        · rename_i hthere
          rw [if_neg hthere] at h
          split at h
          · cases h
          · rename_i hdata
            rw [tooSmall_none, if_neg Bool.false_ne_true, if_neg hdata]
    · rfl

theorem PerfHeader.read_stream {size : Int} {bytes : QByteArray} {r : Reading}
    (h : read (some size) ⟨{}, bytes⟩ = (some .finished, r)) : read none ⟨{}, bytes⟩ = (some .finished, r) := by
  unfold read at h ⊢
  dsimp only at h ⊢
  rw [if_pos rfl] at h ⊢
  split at h
  · cases h
  · rw [tooSmall_none, if_neg Bool.false_ne_true]
    split at h
    · cases h
    · rename_i hlen
      rw [if_neg hlen]
      split at h
      · cases h
      · rename_i hmagic
        rw [if_neg hmagic]
        exact readFile_of_stream h

namespace Application

variable {δ : Type} {P : Platform δ} {a : Application δ} {f f' : QFile} {m : Nat}

theorem acceptFeatures_header (a : Application δ) : (a.acceptFeatures P).header = a.header := by
  unfold acceptFeatures
  split
  · split <;> rfl
  · rfl

/-- What is in front of the data is read the same. -/
theorem readFileHeader_alike (halike : Alike m f f') (hbehind : SectionsBehind m a.header f.bytes) :
    Option.Rel (fun x x' => x.1 = x'.1 ∧ x.1.header = a.header ∧ Alike m x.2 x'.2) (a.readFileHeader P f)
      (a.readFileHeader P f') := by
  have hattributes : ∃ ok a' g g', PerfAttributes.read a.header f a.data.attributes = (ok, a', g) ∧
      PerfAttributes.read a.header f' a.data.attributes = (ok, a', g') ∧ Alike m g g' := by
    unfold PerfAttributes.read
    split
    · exact ⟨_, _, _, _, rfl, rfl, halike⟩
    · exact PerfAttributes.readTable_alike _ 0 {} _ halike (fun j _ hj => hbehind.attrs j (by omega))
        (fun j _ hj => hbehind.ids j (by omega))
  obtain ⟨ok, attributes, g, g', hg, hg', hgalike⟩ := hattributes
  have hbytes : g.bytes = f.bytes := by
    rw [← PerfAttributes.read_bytes a.header f a.data.attributes, hg]
  have hbytes' : g'.bytes = f'.bytes := by
    rw [← PerfAttributes.read_bytes a.header f' a.data.attributes, hg']
  unfold readFileHeader
  dsimp only
  rw [hg, hg']
  cases ok with
  | false => exact .some ⟨rfl, rfl, hgalike⟩
  | true =>
    dsimp only
    have hfeatures := PerfFeatureSections.read_same (E := env P { a with data := { a.data with attributes } })
      P.fuel P.iterateSections_perm hgalike.behind hbehind.features (h := a.header)
      (by unfold PerfFeatureSections.table; rw [hbytes]; exact hbehind.sections) a.features
    generalize hx : PerfFeatureSections.read _ _ _ _ g _ = x at hfeatures
    generalize hx' : PerfFeatureSections.read _ _ _ _ g' _ = x' at hfeatures
    cases hfeatures with
    | none => exact .none
    | @some x x' hsame =>
      obtain ⟨ok, features, e⟩ := x
      obtain ⟨ok', features', e'⟩ := x'
      obtain ⟨rfl, rfl, rfl, -⟩ := hsame
      refine .some ⟨rfl, acceptFeatures_header _, ?_⟩
      have he : e.bytes = f.bytes := (PerfFeatureSections.read_bytes hx).trans hbytes
      have he' : e'.bytes = f'.bytes := (PerfFeatureSections.read_bytes hx').trans hbytes'
      dsimp only
      rw [he, he']
      exact halike

/-- The parser makes the same of both. -/
theorem readData_alike (halike : Alike m f f') (hfile : a.header.isPipe = false) (hdata : m ≤ a.header.data.offset.toInt) :
    a.readData P f = a.readData P f' := by
  have hread : a.readFile P f = a.readFile P f' := by
    unfold readFile
    rw [hfile, if_neg Bool.false_ne_true, if_neg Bool.false_ne_true, PerfData.readFile_alike halike.behind hdata]
  unfold readData
  rw [hread]
  exact if_congr Iff.rfl rfl (if_congr halike.left rfl rfl)

/-- **The header, the tables and the data of both lead to the same.** -/
theorem readFileHeader_readData (halike : Alike m f f') (hfile : a.header.isPipe = false)
    (hbehind : SectionsBehind m a.header f.bytes) :
    (a.readFileHeader P f).map (fun (a, f) => a.readData P f) =
      (a.readFileHeader P f').map (fun (a, f) => a.readData P f) := by
  have hheader := readFileHeader_alike (P := P) halike hbehind
  generalize a.readFileHeader P f = x at hheader
  generalize a.readFileHeader P f' = x' at hheader
  cases hheader with
  | none => rfl
  | @some x x' hsame =>
    obtain ⟨b, g⟩ := x
    obtain ⟨b', g'⟩ := x'
    obtain ⟨rfl, hb, hg⟩ := hsame
    exact congrArg some (readData_alike hg (by rw [hb]; exact hfile) (by rw [hb]; exact hbehind.data))

/-! ## Buffering -/

theorem foldl_arrive_buffering : ∀ {chunks : List QByteArray} (tempfile : QByteArray),
    (∀ chunk ∈ chunks, chunk.length ≤ bufferLength) →
    chunks.foldl (arrive P) (.buffering a [] tempfile) = .buffering a [] (tempfile ++ chunks.flatten)
  | [], tempfile, _ => by rw [List.foldl_nil, List.flatten_nil, List.append_nil]
  | chunk :: chunks, tempfile, h => by
    have hchunk := h chunk List.mem_cons_self
    rw [List.foldl_cons, arrive, bufferSequentialData, List.nil_append, List.drop_eq_nil_of_le hchunk,
      List.take_of_length_le hchunk, foldl_arrive_buffering _ fun c hc => h c (List.mem_cons_of_mem chunk hc),
      List.append_assoc, List.flatten_cons]

/-- What a file leads to when its header is read of the stream. -/
theorem headerFinished_file {h : PerfHeader} {unread : QByteArray} (hfile : h.isPipe = false)
    (hunread : unread.length ≤ bufferLength) : headerFinished P ⟨h, unread⟩ =
      .buffering (started P h) [] (List.replicate h.size.toInt.toNat 0 ++ unread) := by
  unfold headerFinished
  dsimp only
  rw [hfile, if_neg Bool.false_ne_true]
  split
  · rename_i hnil
    rw [hnil, List.append_nil]
  · rw [bufferSequentialData, List.drop_eq_nil_of_le hunread, List.take_of_length_le hunread]

/-- A file with an attribute, ten finished rounds and a host name. -/
def smallFile : QByteArray :=
  PerfHeader.littleEndianHeader ++ (0 :: 0 :: 0 :: 0 :: 120 :: List.replicate 131 0) ++
    (List.replicate 10 [68, 0, 0, 0, 0, 0, 8, 0]).flatten ++ [0x50, 1, 0, 0, 0, 0, 0, 0, 6, 0, 0, 0, 0, 0, 0, 0] ++
    [2, 0, 0, 0, 104, 0]

end Application

end PerfParser
