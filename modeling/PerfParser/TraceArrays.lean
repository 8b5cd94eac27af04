import PerfParser.TraceData
import PerfParser.TracingBlob
/-!
# TraceArrays — what becomes of the arrays of a trace event

An array is dynamic or of longs.  The kernel declares a dynamic one by its brackets, which stand right behind the type;
`readFormatField` looks for them as a word of their own, so what is read of the field is the word that says where the
array is (`readTraceData_dataLoc`).  The size of a long is read from the blob into a flag, so an array of longs is read
byte by byte (`readTraceData_longs_iff`).
-/
namespace PerfParser

open Text FormatField

/-- The numbers of that width that are in the data from there on. -/
def numbersAt (data : QByteArray) (start width n : Nat) (isSigned byteSwap : Bool) : List TraceItem :=
  (List.range n).map fun j =>
    let number := Reader.decode byteSwap ((data.drop (start + j * width)).take width)
    .number (if isSigned then Int.bmod number (256 ^ width) else number)

@[simp] theorem length_numbersAt (data : QByteArray) (start width n : Nat) (isSigned byteSwap : Bool) :
    (numbersAt data start width n isSigned byteSwap).length = n := by
  rw [numbersAt, List.length_map, List.length_range]

/-! ## Dynamic arrays -/

/-- A dynamic array: the words of its type, of which the last has the brackets, its name, and the place of the word that
says where it is. -/
structure DataLoc where
  type : List Word
  last : Word
  name : Word
  offset : UInt32
  isSigned : Bool

namespace DataLoc

/-- `__data_loc T[] NAME`. -/
def words (d : DataLoc) : List QByteArray :=
  QByteArray.ofString "__data_loc" :: (d.type.map Word.text ++ [d.last.text ++ [91, 93], d.name.text])

def line (d : DataLoc) : QByteArray :=
  [9].intercalate
    [[], TraceField.chunk "field" ([32].intercalate d.words), TraceField.chunk "offset" (decimal d.offset.toNat),
      TraceField.chunk "size" (decimal 4), TraceField.chunk "signed" (decimal (if d.isSigned then 1 else 0))]

section Payload

variable (d : DataLoc) (data : QByteArray) (byteSwap : Bool)

/-- `length << 16 | offset`. -/
def locationWord : Nat := Reader.decode byteSwap ((data.drop d.offset.toNat).take 4)

/-- The word is in the data, and so is what it points at. -/
structure PointsInside : Prop where
  word : d.offset.toNat + 4 ≤ data.length
  payload : d.locationWord data byteSwap % 2 ^ 16 + d.locationWord data byteSwap / 2 ^ 16 ≤ data.length
  size : data.length ≤ intMax

/-- What it points at: a text, or numbers of some width. -/
def payload (width : Option Nat) : TraceValue :=
  let offset := d.locationWord data byteSwap % 2 ^ 16
  let length := d.locationWord data byteSwap / 2 ^ 16
  match width with
  | none => .bytes ((data.drop offset).take length)
  | some width => .list (numbersAt data offset width (length / width) d.isSigned byteSwap)

/-- The word as a number. -/
def number : Int :=
  if d.isSigned then Int.bmod (d.locationWord data byteSwap) (256 ^ 4) else d.locationWord data byteSwap

theorem payload_ne (width : Option Nat) (item : TraceItem) : TraceValue.item item ≠ d.payload data byteSwap width := by
  unfold payload
  cases width with
  | none => exact TraceValue.noConfusion
  | some width => exact TraceValue.noConfusion

end Payload

variable (d : DataLoc)

theorem not_mem_words {c : UInt8} (hc : isWordByte c = false) (hlocation : c ∉ QByteArray.ofString "__data_loc")
    (hbrackets : c ≠ 91 ∧ c ≠ 93) : ∀ word ∈ d.words, c ∉ word := by
  simp only [words, List.forall_mem_cons, List.forall_mem_append, List.forall_mem_map]
  refine ⟨hlocation, fun w _ => w.not_mem hc, ?_, d.name.not_mem hc, fun _ h => (List.not_mem_nil h).elim⟩
  simp only [List.mem_append, List.mem_cons, List.not_mem_nil, or_false, not_or]
  exact ⟨d.last.not_mem hc, hbrackets⟩

theorem not_mem_declaration {c : UInt8} (hspace : c ≠ 32) (hc : isWordByte c = false)
    (hlocation : c ∉ QByteArray.ofString "__data_loc") (hbrackets : c ≠ 91 ∧ c ≠ 93) :
    c ∉ [32].intercalate d.words := by
  intro h
  rcases mem_intercalate h with rfl | ⟨word, hword, h⟩
  · exact hspace rfl
  · exact d.not_mem_words hc hlocation hbrackets word hword h

theorem declaration_bare : Bare ([32].intercalate d.words) := by
  have hbrackets : Bare [91, 93] := ⟨fun c hc => Option.some.inj hc ▸ rfl, fun c hc => Option.some.inj hc ▸ rfl⟩
  have hlocation : Bare (QByteArray.ofString "__data_loc") := (Word.ofText _ (by decide)).bare
  refine (Bare.intercalate 32 (List.cons_ne_nil _ _) ?_).1
  simp only [List.forall_mem_cons, List.forall_mem_append, List.forall_mem_map]
  refine ⟨⟨hlocation, by decide⟩, fun w _ => ⟨w.bare, w.ne_nil⟩, ⟨?_, ?_⟩, ⟨d.name.bare, d.name.ne_nil⟩,
    fun _ h => (List.not_mem_nil h).elim⟩
  · have h := d.last.bare.append d.last.ne_nil hbrackets (List.cons_ne_nil _ _) []
    rwa [List.append_nil] at h
  · exact List.append_ne_nil_of_left_ne_nil d.last.ne_nil _

/-- **The brackets are taken for the end of the type**, and the field for no array. -/
theorem readDeclaration_words : (({} : FormatField).readDeclaration ([32].intercalate d.words)).flags = 0 := by
  have hsplit : ([32].intercalate d.words).splitOn 32 = d.words :=
    List.splitOn_intercalate 32 (d.not_mem_words rfl (by decide) (by decide)) (List.cons_ne_nil _ _)
  have hwords : d.words =
      QByteArray.ofString "__data_loc" :: (d.type.map Word.text ++ [d.last.text ++ [91, 93]]) ++ [d.name.text] := by
    rw [words, List.cons_append, List.append_assoc]
    rfl
  have hlast : d.last.text ++ [91, 93] ≠ QByteArray.ofString "[]" := by
    intro h
    exact d.last.ne_nil (List.append_left_eq_self.1 h)
  have hpointer : readPointer d.name.text {} = (d.name.text, {}) := by
    have h := readPointer_word d.name [] {}
    rwa [List.append_nil] at h
  rw [readDeclaration, d.declaration_bare.trimmed_eq, hsplit, hwords, List.getLast?_concat, List.dropLast_concat,
    Option.getD_some, hpointer]
  dsimp only
  rw [readArrayLength_word]
  dsimp only
  rw [← List.cons_append, List.getLast?_concat, if_neg (fun h => hlast (Option.some.inj h))]

theorem processLine_line : processLine handle d.line {} =
    { ({} : FormatField).readDeclaration ([32].intercalate d.words) with
      offset := d.offset, size := 4, flags := if d.isSigned then FIELD_IS_SIGNED else 0 } := by
  have htab : 9 ∉ [32].intercalate d.words := d.not_mem_declaration (by decide) rfl (by decide) (by decide)
  have hcolon : 58 ∉ [32].intercalate d.words := d.not_mem_declaration (by decide) rfl (by decide) (by decide)
  refine (processLine_declaration htab hcolon d.declaration_bare.head d.offset 4 d.isSigned).trans ?_
  rw [d.readDeclaration_words, UInt32.zero_or]

/-- What the field is read as. -/
theorem readFormatField_line (fileLongSize : Bool) :
    (readFormatField fileLongSize d.line).offset = d.offset ∧ (readFormatField fileLongSize d.line).size = 4 ∧
      (readFormatField fileLongSize d.line).has FIELD_IS_ARRAY = false ∧
      (readFormatField fileLongSize d.line).has FIELD_IS_SIGNED = d.isSigned := by
  have hsame := (same_setTypeFlags (processLine handle d.line {})).trans (same_setElementSize fileLongSize _)
  have hflags := flags_spec false d.isSigned
  rw [if_neg Bool.false_ne_true, UInt32.zero_or] at hflags
  rw [readFormatField]
  rw [processLine_line] at hsame ⊢
  exact ⟨hsame.offset, hsame.size, hsame.isArray.trans hflags.1, hsame.isSigned.trans hflags.2⟩

theorem readTraceData_line (fileLongSize : Bool) {data : QByteArray} {byteSwap : Bool}
    (h : d.PointsInside data byteSwap) (rounds : Nat) :
    (readTraceData rounds data (readFormatField fileLongSize d.line) byteSwap).1 =
      some (.item (.number (d.number data byteSwap))) := by
  obtain ⟨hoffset, hsize, harray, hsigned⟩ := d.readFormatField_line fileLongSize
  have hinside : (readFormatField fileLongSize d.line).outside data = false := by
    rw [outside_eq_false_iff, hoffset, hsize]
    exact ⟨h.word.trans h.size, h.word⟩
  rw [readTraceData_number rounds hinside harray, hoffset, hsize, hsigned, readTraceItem, if_pos (by decide)]
  rfl

/-- **A dynamic array is read as the word that says where it is**, and never as what is there. -/
theorem readTraceData_dataLoc (fileLongSize : Bool) {data : QByteArray} {byteSwap : Bool}
    (h : d.PointsInside data byteSwap) (rounds : Nat) :
    (readTraceData rounds data (readFormatField fileLongSize d.line) byteSwap).1 =
        some (.item (.number (d.number data byteSwap))) ∧
      ∀ width, (readTraceData rounds data (readFormatField fileLongSize d.line) byteSwap).1 ≠
        some (d.payload data byteSwap width) := by
  rw [d.readTraceData_line fileLongSize h rounds]
  exact ⟨rfl, fun width hwidth => d.payload_ne data byteSwap width _ (Option.some.inj hwidth)⟩

/-- `__data_loc char[] s`. -/
def charArray : DataLoc where
  type := []
  last := .ofText (QByteArray.ofString "char") (by decide)
  name := .ofText (QByteArray.ofString "s") (by decide)
  offset := 0
  isSigned := true

/-- The location of two bytes, and the bytes. -/
def charData : QByteArray := [4, 0, 2, 0] ++ QByteArray.ofString "ab"

theorem charArray_pointsInside : charArray.PointsInside charData false := ⟨by decide, by decide, by decide⟩

theorem readTraceData_charArray :
    (readTraceData 0 charData (readFormatField true charArray.line) false).1 =
        some (.item (.number (charArray.number charData false))) ∧
      ∀ width, (readTraceData 0 charData (readFormatField true charArray.line) false).1 ≠
        some (charArray.payload charData false width) :=
  charArray.readTraceData_dataLoc true charArray_pointsInside 0

/-- The text is not what is read. -/
theorem not_readTraceData_payload : ¬∀ (d : DataLoc) (fileLongSize : Bool) (data : QByteArray) (byteSwap : Bool),
    d.PointsInside data byteSwap → ∃ width rounds,
      (readTraceData rounds data (readFormatField fileLongSize d.line) byteSwap).1 =
        some (d.payload data byteSwap width) := by
  intro h
  obtain ⟨width, rounds, hread⟩ := h charArray true charData false charArray_pointsInside
  rw [charArray.readTraceData_line true charArray_pointsInside rounds] at hread
  exact charArray.payload_ne charData false width _ (Option.some.inj hread)

end DataLoc

/-! ## Flags -/

namespace FormatField

theorem has_setFlag_self {flag : UInt32} (h : flag ≠ 0) (field : FormatField) :
    (field.setFlag flag).has flag = true := by
  have hself : (field.flags ||| flag) &&& flag = flag := by
    refine UInt32.eq_of_toBitVec_eq (BitVec.eq_of_getLsbD_eq fun i _ => ?_)
    rw [UInt32.toBitVec_and, UInt32.toBitVec_or, BitVec.getLsbD_and, BitVec.getLsbD_or]
    cases flag.toBitVec.getLsbD i <;> simp
  rw [has, setFlag, hself, bne_iff_ne]
  exact h

/-- A long type has its flag. -/
theorem setTypeFlags_long {field : FormatField} (h : field.typeContains "long" = true) :
    field.setTypeFlags.has FIELD_IS_LONG = true := by
  have hlong : (if QByteArray.ofString "__data_loc" <+: field.type then field.setFlag FIELD_IS_DYNAMIC
      else field).typeContains "long" = true := by
    split <;> exact h
  unfold setTypeFlags
  dsimp only
  rw [if_pos hlong]
  exact has_setFlag_self (by decide) _

end FormatField

/-! ## Arrays of longs -/

/-- The blob was recorded on a machine with longs of that size. -/
def HasLongSize (blob : QByteArray) (longSize : UInt8) : Prop :=
  ∃ (version : QByteArray) (endianness : UInt8) (rest : QByteArray), 0 ∉ version ∧
    blob = PerfTracingData.tracingMagic ++ (version ++ 0 :: endianness :: longSize :: rest)

/-- An array of a long type, without a numeric length. -/
structure LongArray (field : FormatField) : Prop where
  isArray : field.has FIELD_IS_ARRAY = true
  arraylen : field.arraylen = 0
  long : field.typeContains "long" = true
  noText : (field.typeContains "char" || field.typeContains "u8" || field.typeContains "s8") = false
  noShort : (field.typeContains "u16" || field.typeContains "s16") = false
  noInt : (field.typeContains "u32" || field.typeContains "s32") = false
  noWide : (field.typeContains "u64" || field.typeContains "s64") = false

/-- The data have these longs in the field. -/
structure HoldsLongs (longSize : Nat) (data : QByteArray) (field : FormatField) (byteSwap : Bool) (values : List Int) :
    Prop where
  inside : field.outside data = false
  elementsInside : (elementsField data field byteSwap).outside data = false
  size : (elementsField data field byteSwap).size.toNat = values.length * longSize
  values : numbersAt data (elementsField data field byteSwap).offset.toNat longSize values.length
    (field.has FIELD_IS_SIGNED) byteSwap = values.map .number

namespace LongArray

variable {line : QByteArray} {data : QByteArray} {byteSwap : Bool}

theorem setElementSize {field : FormatField} (h : LongArray (field.setElementSize true))
    (hlong : field.has FIELD_IS_LONG = true) :
    field.setElementSize true = { field with elementsize := 1 } := by
  have hsame := same_setElementSize true field
  obtain ⟨harray, hlength, -, htext, hshort, hint, hwide⟩ := h
  simp only [typeContains, hsame.type] at htext hshort hint hwide
  rw [hsame.isArray] at harray
  rw [hsame.arraylen] at hlength
  rw [FormatField.setElementSize, if_pos harray]
  simp only [typeContains]
  rw [htext, hshort, hint, hwide, hlength, hlong]
  rfl

/-- **The size of a long is read as 1.** -/
theorem readFormatField (h : LongArray (readFormatField true line)) :
    (FormatField.readFormatField true line).elementsize = 1 ∧
      (FormatField.readFormatField true line).has FIELD_IS_STRING = false := by
  have hsame := same_setElementSize true (processLine handle line {}).setTypeFlags
  have hsame' := same_setTypeFlags (processLine handle line {})
  have htype := h.long
  rw [FormatField.readFormatField] at h htype ⊢
  simp only [typeContains, hsame.type, hsame'.type] at htype
  rw [h.setElementSize (setTypeFlags_long htype)]
  exact ⟨rfl, (rest_line line).isString⟩

end LongArray

/-- The elements of one byte are as many as the field has bytes. -/
theorem Elements.length_of_read {data : QByteArray} {field : FormatField} {byteSwap : Bool} {rounds : Nat}
    {items : List TraceItem} (hone : field.elementsize = 1) (hinside : field.outside data = false)
    (hread : (Elements.read rounds data field byteSwap).1 = some (.list items)) : items.length = field.size.toNat := by
  have hmax : intMax = 0x7FFFFFFF := rfl
  have hfit := ((field.outside_eq_false_iff data).1 hinside).1
  have hstep : field.elementsize.toNat = 1 := by rw [hone]; rfl
  obtain ⟨k, hdone⟩ := @exists_done data field byteSwap (by rw [Narrow]; omega) rounds
  rw [Elements.read] at hread
  dsimp only at hread
  split at hread
  · cases hread
  · rename_i hmore
    obtain rfl := TraceValue.list.inj (Option.some.inj hread)
    have hi := hdone.i
    rw [hstep, Nat.mul_one] at hi
    have hle := Nat.not_lt.1 fun hlt => hmore (decide_eq_true (UInt32.lt_iff_toNat_lt.2 hlt))
    rw [hdone.result, List.length_map, List.length_range]
    cases k with
    | zero => omega
    | succ k =>
      have hstart := hdone.starts k (Nat.lt_succ_self k)
      rw [hstep, Nat.mul_one] at hstart
      omega

/-! ## From the blob to the fields -/

/-- The fields were read with that size of a long. -/
def EventFormat.ReadWith (fileLongSize : Bool) (event : EventFormat) : Prop :=
  ∀ field ∈ event.commonFields ++ event.fields, ∃ line, field = readFormatField fileLongSize line

theorem FormatReading.readWith_handle {fileLongSize : Bool} (name value : QByteArray) {s : FormatReading}
    (h : s.event.ReadWith fileLongSize) : (handle name value s).event.ReadWith fileLongSize := by
  unfold handle
  repeat' split
  all_goals exact h

theorem FormatReading.readWith_readLine {fileLongSize : Bool} (line : QByteArray) {s : FormatReading}
    (h : s.event.ReadWith fileLongSize) : (s.readLine fileLongSize line).event.ReadWith fileLongSize := by
  unfold readLine
  split
  · split
    · exact h
    · intro field hfield
      rw [List.mem_append, List.mem_append, List.mem_singleton] at hfield
      rcases hfield with (hfield | rfl) | hfield
      · exact h field (List.mem_append_left _ hfield)
      · exact ⟨line, rfl⟩
      · exact h field (List.mem_append_right _ hfield)
  · split
    · exact h
    · intro field hfield
      rw [List.mem_append, List.mem_append, List.mem_singleton] at hfield
      rcases hfield with hfield | hfield | rfl
      · exact h field (List.mem_append_left _ hfield)
      · exact h field (List.mem_append_right _ hfield)
      · exact ⟨line, rfl⟩
  all_goals
    exact processLine_keeps handle (P := fun s : FormatReading => s.event.ReadWith fileLongSize)
      (fun name value s h => readWith_handle (s := s) name value h) line h

theorem FormatReading.readWith_read (fileLongSize : Bool) (system buffer : QByteArray) :
    (read fileLongSize system buffer).event.ReadWith fileLongSize := by
  rw [read]
  refine List.foldlRecOn (motive := fun s : FormatReading => s.event.ReadWith fileLongSize) _ _ ?_ fun _ h line _ =>
    readWith_readLine line h
  exact fun field hfield => (List.not_mem_nil hfield).elim

namespace PerfTracingData

/-- The size of a long, and the formats that were read with it. -/
structure ReadWith (fileLongSize : Bool) (t : PerfTracingData) : Prop where
  longSize : t.fileLongSize = fileLongSize
  formats : ∀ id format, t.eventFormats.find id = some format → format.ReadWith fileLongSize

variable {fileLongSize : Bool} (bigEndian : Bool)

theorem ReadWith.of_same {t t' : PerfTracingData} (h : t.ReadWith fileLongSize) (hsame : SameFormats t t') :
    t'.ReadWith fileLongSize := ⟨hsame.1.trans h.longSize, hsame.2 ▸ h.formats⟩

/-- The step leaves the size of a long, and reads formats with it. -/
def Keeps (fileLongSize : Bool) (f : Step) : Prop :=
  ∀ t bytes, t.ReadWith fileLongSize → ((f t).run bytes).1.2.ReadWith fileLongSize

theorem keeps_readSection (size : Reader UInt8 Nat) {f : PerfTracingData → QByteArray → PerfTracingData}
    (hf : ∀ t buffer, SameFormats t (f t buffer)) : Keeps fileLongSize (readSection size f) := by
  intro t bytes h
  rw [readSection, Reader.run_map]
  split
  · exact h.of_same (hf t _)
  · exact h

theorem keeps_readEventFormat (system : QByteArray) : Keeps fileLongSize (readEventFormat bigEndian system) := by
  intro t bytes h
  rw [readEventFormat, Reader.run_bind]
  split
  · exact h
  · dsimp only
    split
    · refine ⟨h.longSize, fun id format hformat => ?_⟩
      rw [Reader.run_pure] at hformat
      rw [QHash.find_insert] at hformat
      split at hformat
      · obtain rfl := Option.some.inj hformat
        rw [h.longSize]
        exact FormatReading.readWith_read _ _ _
      · exact h.formats id format hformat
    · exact h

theorem keeps_readCounted {f : Step} (hf : Keeps fileLongSize f) : Keeps fileLongSize (readCounted bigEndian f) := by
  intro t bytes h
  rw [readCounted, Reader.run_bind]
  refine Reader.steps_keeps (P := ReadWith fileLongSize) (fun g hg => ?_) h _
  rw [List.eq_of_mem_replicate hg]
  exact hf

theorem keeps_readEventFiles : Keeps fileLongSize (readEventFiles bigEndian) :=
  keeps_readCounted bigEndian fun t bytes h => by
    rw [Reader.run_bind]
    exact keeps_readCounted bigEndian (keeps_readEventFormat bigEndian _) t _ h

theorem keeps_readHeaderFiles : Keeps fileLongSize (readHeaderFiles bigEndian) := by
  intro t bytes h
  refine Reader.steps_keeps (P := ReadWith fileLongSize) ?_ h bytes
  simp only [List.forall_mem_cons]
  exact ⟨fun _ _ h => h, keeps_readSection _ sameFormats_addHeaderFields, fun _ _ h => h, fun _ _ h => h,
    fun _ h => (List.not_mem_nil h).elim⟩

theorem keeps_readSections (version : QByteArray) : Keeps fileLongSize (readSections bigEndian version) := by
  intro t bytes h
  refine Reader.steps_keeps (P := ReadWith fileLongSize) ?_ h bytes
  simp only [List.forall_mem_append, List.forall_mem_cons]
  refine ⟨⟨keeps_readHeaderFiles bigEndian, keeps_readCounted bigEndian (keeps_readEventFormat bigEndian _),
    keeps_readEventFiles bigEndian, fun _ _ h => h,
    keeps_readSection _ fun t buffer => sameFormats_foldl sameFormats_addPrintk _ t,
    fun _ h => (List.not_mem_nil h).elim⟩, ?_⟩
  split
  · simp only [List.forall_mem_cons]
    exact ⟨keeps_readSection _ fun _ _ => ⟨rfl, rfl⟩, fun _ h => (List.not_mem_nil h).elim⟩
  · exact fun _ h => (List.not_mem_nil h).elim

/-- The byte that is the size of a long becomes whether it is there. -/
theorem run_readPreamble (t : PerfTracingData) {version : QByteArray} (hversion : 0 ∉ version)
    (endianness longSize : UInt8) (rest : QByteArray) :
    ((readPreamble t).run (version ++ 0 :: endianness :: longSize :: rest)).1.fileLongSize = (longSize != 0) ∧
      ((readPreamble t).run (version ++ 0 :: endianness :: longSize :: rest)).1.eventFormats = t.eventFormats := by
  have hzero : ∀ c ∈ version, (c == 0) = false := fun c hc => beq_false_of_ne (fun h0 => hversion (h0 ▸ hc))
  have hstring : readNullTerminatedString.run (version ++ 0 :: endianness :: longSize :: rest) =
      (version, endianness :: longSize :: rest) := by
    rw [List.append_cons]
    exact Reader.Reads.untilStop hzero (beq_self_eq_true 0) _
  have hendianness : (Reader.number false 1).run (endianness :: longSize :: rest) =
      (endianness.toNat, longSize :: rest) := reads_byte endianness _
  have hlongSize : (Reader.number false 1).run (longSize :: rest) = (longSize.toNat, rest) := reads_byte longSize _
  rw [readPreamble, Reader.run_bind, hstring, Reader.run_bind, hendianness, Reader.run_bind, hlongSize]
  exact ⟨toNat_bne_zero longSize, rfl⟩

/-- **All fields are read with the flag**, wherever the blob ends. -/
theorem readWith_parse {blob : QByteArray} {longSize : UInt8} (h : HasLongSize blob longSize) (size : UInt32) :
    (parse { size } blob).ReadWith (longSize != 0) := by
  obtain ⟨version, endianness, rest, hversion, rfl⟩ := h
  have hmagic := ((reads_readRawData tracingMagic).map (fun read => read == tracingMagic))
    (version ++ 0 :: endianness :: longSize :: rest)
  rw [beq_self_eq_true] at hmagic
  obtain ⟨hlong, hformats⟩ := run_readPreamble { size } hversion endianness longSize rest
  rw [parse, read, Reader.run_bind, checkMagic, hmagic, if_pos rfl, Reader.run_bind, Reader.run_map]
  refine keeps_readSections _ _ _ _ ⟨hlong, fun id format hformat => ?_⟩
  rw [hformats] at hformat
  cases hformat

end PerfTracingData

/-! ## All of it -/

/-- What is read of an array of longs has an element for each byte. -/
theorem LongArray.length_of_read {line data : QByteArray} {byteSwap : Bool} {values : List Int} {longSize rounds : Nat}
    {items : List TraceItem} (h : LongArray (FormatField.readFormatField true line))
    (hvalues : HoldsLongs longSize data (FormatField.readFormatField true line) byteSwap values)
    (hread : (readTraceData rounds data (FormatField.readFormatField true line) byteSwap).1 = some (.list items)) :
    items.length = values.length * longSize := by
  obtain ⟨hone, hstring⟩ := h.readFormatField
  obtain ⟨_, -, hloop⟩ := readTraceData_of_loop ⟨hvalues.inside, h.isArray, hstring, hvalues.elementsInside⟩ rounds
  rw [hloop] at hread
  rw [← hvalues.size]
  refine Elements.length_of_read ?_ hvalues.elementsInside hread
  rw [elementsize_elementsField, hone]

/-- **The longs of an array are read back if and only if there are none.** -/
theorem readTraceData_longs_iff {blob : QByteArray} {longSize : UInt8} (hsize : longSize = 4 ∨ longSize = 8)
    (hblob : HasLongSize blob longSize) {size : UInt32} {id : Int32} {format : EventFormat}
    (hformat : (PerfTracingData.parse { size } blob).eventFormats.find id = some format) {field : FormatField}
    (hfield : field ∈ format.commonFields ++ format.fields) (hlong : LongArray field) {data : QByteArray}
    {byteSwap : Bool} {values : List Int} (hvalues : HoldsLongs longSize.toNat data field byteSwap values) :
    (∃ rounds, (readTraceData rounds data field byteSwap).1 = some (.list (values.map .number))) ↔ values = [] := by
  have htrue : (longSize != 0) = true := by rcases hsize with rfl | rfl <;> rfl
  have hwide : 4 ≤ longSize.toNat := by rcases hsize with rfl | rfl <;> decide
  have hreadWith := PerfTracingData.readWith_parse hblob size
  rw [htrue] at hreadWith
  obtain ⟨line, rfl⟩ := hreadWith.formats id format hformat field hfield
  constructor
  · rintro ⟨rounds, hread⟩
    have hlength := hlong.length_of_read hvalues hread
    rw [List.length_map] at hlength
    cases values with
    | nil => rfl
    | cons value values =>
      have hmore := Nat.mul_le_mul_left (value :: values).length hwide
      rw [List.length_cons] at hlength hmore
      omega
  · rintro rfl
    obtain ⟨-, hstring⟩ := hlong.readFormatField
    obtain ⟨_, -, hloop⟩ := readTraceData_of_loop ⟨hvalues.inside, hlong.isArray, hstring, hvalues.elementsInside⟩ 0
    refine ⟨0, ?_⟩
    have hempty : ¬Elements.more (elementsField data (FormatField.readFormatField true line) byteSwap) {} = true := by
      rw [Elements.more, decide_eq_true_iff, UInt32.lt_iff_toNat_lt, hvalues.size, List.length_nil, Nat.zero_mul]
      exact Nat.not_lt_zero _
    rw [hloop, Elements.read, Loop.upTo, if_neg hempty]
    rfl

/-- A format with an array of longs. -/
def longText : QByteArray :=
  QByteArray.ofString "ID: 7\nformat:\n\n\tfield:long a[];\toffset:0;\tsize:8;\tsigned:1;\n"

/-- Tracing data with that format, of a machine whose longs have 8 bytes. -/
def longBlob : QByteArray :=
  PerfTracingData.tracingMagic ++ (QByteArray.ofString "0.5" ++ 0 :: 0 :: 8 :: ([0, 16, 0, 0] ++
    (QByteArray.ofString "header_page" ++ 0 :: List.replicate 8 0) ++
    (QByteArray.ofString "header_event" ++ 0 :: List.replicate 8 0) ++
    ([1, 0, 0, 0] ++ Reader.toBytes 8 longText.length ++ longText)))

def longField : FormatField where
  type := QByteArray.ofString "long"
  name := QByteArray.ofString "a"
  size := 8
  elementsize := 1
  flags := 37

def longData : QByteArray := Reader.toBytes 8 5

theorem longBlob_size : HasLongSize longBlob 8 := ⟨QByteArray.ofString "0.5", 0, _, by decide, rfl⟩

theorem longBlob_format : (PerfTracingData.parse {} longBlob).eventFormats.find 7 = some
    { EventFormat.ofSystem (QByteArray.ofString "ftrace") with fields := [longField] } := by
  decide +kernel

theorem longField_isLong : LongArray longField :=
  ⟨by decide, rfl, by decide, by decide, by decide, by decide, by decide⟩

theorem longData_holds : HoldsLongs 8 longData longField false [5] := ⟨by decide, by decide, by decide, by decide⟩

/-- One long is not read back. -/
theorem readTraceData_longField :
    (∃ rounds, (readTraceData rounds longData longField false).1 = some (.list ([5].map .number))) ↔ [(5 : Int)] = [] :=
  readTraceData_longs_iff (.inr rfl) longBlob_size longBlob_format (List.mem_singleton.2 rfl) longField_isLong
    longData_holds

/-- What is read instead are its bytes. -/
theorem not_readTraceData_longs : ¬∀ (blob : QByteArray) (longSize : UInt8), longSize = 4 ∨ longSize = 8 →
    HasLongSize blob longSize → ∀ (size : UInt32) (id : Int32) (format : EventFormat),
    (PerfTracingData.parse { size } blob).eventFormats.find id = some format →
    ∀ field ∈ format.commonFields ++ format.fields, LongArray field → ∀ (data : QByteArray) (byteSwap : Bool)
      (values : List Int), HoldsLongs longSize.toNat data field byteSwap values →
      ∃ rounds, (readTraceData rounds data field byteSwap).1 = some (.list (values.map .number)) := by
  intro h
  obtain ⟨rounds, hread⟩ := h longBlob 8 (.inr rfl) longBlob_size 0 7 _ longBlob_format longField
    (List.mem_singleton.2 rfl) longField_isLong longData false [5] longData_holds
  obtain ⟨_, -, hloop⟩ := @readTraceData_of_loop longData longField false ⟨by decide, rfl, rfl, by decide⟩ rounds
  rw [hloop] at hread
  have hlength := Elements.length_of_read rfl (by decide) hread
  exact absurd hlength (by decide)

end PerfParser
