import PerfParser.TracingData
/-!
# TracingLines — the text of an event format, and back

The lines of a format as the kernel writes them: the name, the id, the fields all events have, those of the event, and how
it is printed.  A line is split at its tabs, colons and semicolons, so no word of it may have them; what is written is
then read back, field by field and line by line (`FormatReading.read_text`).
-/
namespace PerfParser

open Text

/-! ## What is written -/

/-- A byte of a word: no white space, and nothing that a line or a declaration is split at. -/
def isWordByte (c : UInt8) : Bool := !isSpace c && c != 58 && c != 59 && c != 42 && c != 91 && c != 93

/-- A word of a type, or a name. -/
structure Word where
  text : QByteArray
  ne_nil : text ≠ []
  bytes : ∀ c ∈ text, isWordByte c = true

/-- The word with this text. -/
def Word.ofText (text : QByteArray) (h : text ≠ [] ∧ text.all isWordByte = true) : Word where
  text := text
  ne_nil := h.1
  bytes := List.all_eq_true.1 h.2

/-- A field: a scalar, or an array of fixed length. -/
structure TraceField where
  type : List Word
  name : Word
  arraylen : Option { n : UInt32 // n ≠ 0 }
  offset : UInt32
  size : UInt32
  isSigned : Bool

structure TraceEvent where
  name : Word
  id : Int32
  commonFields : List TraceField
  fields : List TraceField
  printFmt : { s : QByteArray // 9 ∉ s ∧ 10 ∉ s }

namespace TraceField

/-- The length of the array, zero for a scalar. -/
def length (f : TraceField) : UInt32 := (f.arraylen.map Subtype.val).getD 0

def typeText (f : TraceField) : QByteArray := [32].intercalate (f.type.map Word.text)

/-- The name, with the length of the array behind it. -/
def declarator (f : TraceField) : QByteArray :=
  f.name.text ++ match f.arraylen with
    | some n => 91 :: (decimal n.val.toNat ++ [93])
    | none => []

/-- The words of the declaration. -/
def words (f : TraceField) : List QByteArray := f.type.map Word.text ++ [f.declarator]

/-- What is between the tabs of the line. -/
def chunk (name : String) (value : QByteArray) : QByteArray := QByteArray.ofString name ++ 58 :: (value ++ [59])

def chunks (f : TraceField) : List QByteArray :=
  [[], chunk "field" ([32].intercalate f.words), chunk "offset" (decimal f.offset.toNat),
    chunk "size" (decimal f.size.toNat), chunk "signed" (decimal (if f.isSigned then 1 else 0))]

def line (f : TraceField) : QByteArray := [9].intercalate f.chunks

end TraceField

namespace TraceEvent

def idText (e : TraceEvent) : QByteArray := (if e.id < 0 then [45] else []) ++ decimal e.id.toInt.natAbs

def lines (e : TraceEvent) : List QByteArray :=
  [QByteArray.ofString "name: " ++ e.name.text, QByteArray.ofString "ID: " ++ e.idText, QByteArray.ofString "format:"]
    ++ (e.commonFields.map TraceField.line ++ [[]] ++ (e.fields.map TraceField.line ++ [[]]))
    ++ [QByteArray.ofString "print fmt:" ++ e.printFmt.val]

def text (e : TraceEvent) : QByteArray := unlines e.lines

end TraceEvent

/-! ## Words -/

namespace Word

theorem not_mem (w : Word) {c : UInt8} (hc : isWordByte c = false) : c ∉ w.text := fun h => by
  rw [w.bytes c h] at hc
  cases hc

theorem isSpace_eq (w : Word) {c : UInt8} (h : c ∈ w.text) : isSpace c = false := by
  have hbyte := w.bytes c h
  unfold isWordByte at hbyte
  cases hs : isSpace c with
  | true =>
    rw [hs] at hbyte
    cases hbyte
  | false => rfl

theorem bare (w : Word) : Bare w.text := .of_forall fun _ => w.isSpace_eq

end Word

/-! ## Numbers -/

theorem isSpace_of_digit {c : UInt8} (h : 48 ≤ c ∧ c ≤ 57) : isSpace c = false := by
  have hlow := UInt8.le_iff_toNat_le.1 h.1
  change 48 ≤ c.toNat at hlow
  have hne : (c == 32) = false := beq_false_of_ne (fun hc => by rw [hc] at hlow; exact absurd hlow (by decide))
  have hle : decide (c ≤ 13) = false := decide_eq_false (fun hc => by
    have := UInt8.le_iff_toNat_le.1 hc
    change c.toNat ≤ 13 at this
    omega)
  rw [isSpace, hne, hle, Bool.and_false]
  rfl

namespace QByteArray

theorem signed_of_digit {s : QByteArray} (h : ∀ c ∈ s.head?, 48 ≤ c ∧ c ≤ 57) : signed s = (false, s) := by
  rw [signed, dropWhile_of_head (fun c hc => isSpace_of_digit (h c hc))]
  have hne : ∀ c : UInt8, c < 48 → s.head? ≠ some c := fun c hc hs => by
    have hlow := (h c hs).1
    exact absurd hc (by rw [UInt8.not_lt]; exact hlow)
  rw [if_neg (hne 45 (by decide)), if_neg (hne 43 (by decide))]

theorem head_decimal (n : Nat) : ∀ c ∈ (decimal n).head?, 48 ≤ c ∧ c ≤ 57 := fun _ hc =>
  mem_decimal (List.mem_of_mem_head? hc)

theorem toUInt_decimal (n : UInt32) : toUInt (decimal n.toNat) = n := by
  rw [toUInt, unsignedBelow, signed_of_digit (head_decimal _)]
  dsimp only
  rw [if_neg Bool.false_ne_true, natural?_decimal]
  dsimp only
  rw [if_pos n.toNat_lt, UInt32.ofNat_toNat]

theorem toInt_of_digits (n : Nat) (h : n < 2 ^ 31) : toInt (decimal n) = Int32.ofInt n := by
  rw [toInt, signed_of_digit (head_decimal _)]
  dsimp only
  rw [natural?_decimal]
  dsimp only
  rw [if_neg Bool.false_ne_true, if_pos h]

theorem toInt_of_minus (n : Nat) (h : n ≤ 2 ^ 31) : toInt (45 :: decimal n) = Int32.ofInt (-n) := by
  have hsigned : signed (45 :: decimal n) = (true, decimal n) := rfl
  rw [toInt, hsigned]
  dsimp only
  rw [natural?_decimal]
  dsimp only
  rw [if_pos rfl, if_pos h]

end QByteArray

theorem TraceEvent.toInt_idText (e : TraceEvent) : QByteArray.toInt e.idText = e.id := by
  have hlow := e.id.le_toInt
  have hhigh := e.id.toInt_lt
  unfold idText
  by_cases hneg : e.id < 0
  · rw [Int32.lt_iff_toInt_lt] at hneg
    change e.id.toInt < 0 at hneg
    rw [if_pos (Int32.lt_iff_toInt_lt.2 hneg)]
    refine (QByteArray.toInt_of_minus e.id.toInt.natAbs (by omega)).trans ?_
    rw [show -(e.id.toInt.natAbs : Int) = e.id.toInt by omega, Int32.ofInt_toInt]
  · rw [if_neg hneg]
    rw [Int32.lt_iff_toInt_lt] at hneg
    change ¬e.id.toInt < 0 at hneg
    refine (QByteArray.toInt_of_digits e.id.toInt.natAbs (by omega)).trans ?_
    rw [show (e.id.toInt.natAbs : Int) = e.id.toInt by omega, Int32.ofInt_toInt]

/-! ## Chunks -/

section Chunks

variable {σ : Type} (handler : QByteArray → QByteArray → σ → σ) (s : σ)

theorem processChunk_of_not_mem {chunk : QByteArray} (h : 58 ∉ chunk) : processChunk handler chunk s = s := by
  rw [processChunk, List.splitOn_eq_singleton h]

theorem processChunk_pair {name value : QByteArray} (hname : 58 ∉ name) (hvalue : 58 ∉ value) :
    processChunk handler (name ++ 58 :: value) s = handler (toLower name) (chopSemicolon (trimmed value)) s := by
  rw [processChunk, List.splitOn_append_cons_self_of_not_mem hname, List.splitOn_eq_singleton hvalue]

theorem processLine_single {line : QByteArray} (h : 9 ∉ line) :
    processLine handler line s = processChunk handler line s := by
  rw [processLine, List.splitOn_eq_singleton h]
  rfl

theorem processLine_intercalate {chunks : List QByteArray} (hne : chunks ≠ []) (h : ∀ chunk ∈ chunks, 9 ∉ chunk) :
    processLine handler ([9].intercalate chunks) s = chunks.foldl (fun s chunk => processChunk handler chunk s) s := by
  rw [processLine, List.splitOn_intercalate 9 h hne]

/-- What the handler keeps, the whole line does. -/
theorem processLine_keeps {P : σ → Prop} (h : ∀ name value s, P s → P (handler name value s)) (line : QByteArray) {t : σ}
    (ht : P t) : P (processLine handler line t) := by
  refine List.foldlRecOn _ _ ht fun s hs chunk _ => ?_
  unfold processChunk
  split
  · exact h _ _ _ hs
  · exact hs

theorem chopSemicolon_trimmed {value : QByteArray} (h : ∀ c ∈ value.head?, isSpace c = false) :
    chopSemicolon (trimmed (value ++ [59])) = value := by
  have hbare : Bare (value ++ [59]) := by
    refine ⟨fun c hc => ?_, fun c hc => ?_⟩
    · cases value with
      | nil =>
        rw [← Option.some.inj hc]
        rfl
      | cons b value => exact h c hc
    · rw [List.getLast?_append_of_ne_nil _ (List.cons_ne_nil _ _)] at hc
      rw [← Option.some.inj hc]
      rfl
  rw [hbare.trimmed_eq, chopSemicolon, List.getLast?_concat, if_pos rfl, List.dropLast_concat]

theorem processChunk_chunk {name : String} (hname : 58 ∉ QByteArray.ofString name) {value : QByteArray}
    (hvalue : 58 ∉ value) (hhead : ∀ c ∈ value.head?, isSpace c = false) :
    processChunk handler (TraceField.chunk name value) s = handler (toLower (QByteArray.ofString name)) value s := by
  have hvalue' : 58 ∉ value ++ [59] := by
    rw [List.mem_append, not_or]
    exact ⟨hvalue, by decide⟩
  rw [TraceField.chunk, processChunk_pair handler s hname hvalue', chopSemicolon_trimmed hhead]

end Chunks

/-! ## Fields -/

namespace TraceField

variable (f : TraceField)

/-- A byte that is in no word of a declaration. -/
structure Separates (c : UInt8) : Prop where
  word : isWordByte c = false
  digit : ¬(48 ≤ c ∧ c ≤ 57)
  opening : c ≠ 91
  closing : c ≠ 93

theorem Separates.not_mem_declarator {c : UInt8} (hc : Separates c) : c ∉ f.declarator := by
  unfold declarator
  rw [List.mem_append, not_or]
  refine ⟨f.name.not_mem hc.word, ?_⟩
  cases f.arraylen with
  | none => exact List.not_mem_nil
  | some n =>
    rw [List.mem_cons, List.mem_append, List.mem_singleton]
    rintro (h | h | h)
    · exact hc.opening h
    · exact not_mem_decimal hc.digit _ h
    · exact hc.closing h

theorem Separates.not_mem_words {c : UInt8} (hc : Separates c) : ∀ word ∈ f.words, c ∉ word := by
  intro word hword
  rcases List.mem_append.1 hword with h | h
  · obtain ⟨w, -, rfl⟩ := List.mem_map.1 h
    exact w.not_mem hc.word
  · rw [List.mem_singleton.1 h]
    exact hc.not_mem_declarator f

theorem separates_space : Separates 32 := ⟨rfl, by decide, by decide, by decide⟩

theorem separates_of {c : UInt8} (h : c = 9 ∨ c = 10 ∨ c = 58) : Separates c := by
  rcases h with rfl | rfl | rfl <;> exact ⟨rfl, by decide, by decide, by decide⟩

theorem not_mem_declaration {c : UInt8} (h : c = 9 ∨ c = 10 ∨ c = 58) : c ∉ [32].intercalate f.words := by
  intro hc
  rcases mem_intercalate hc with rfl | ⟨word, hword, hc⟩
  · revert h
    decide
  · exact (separates_of h).not_mem_words f word hword hc

theorem declarator_bare : Bare f.declarator ∧ f.declarator ≠ [] := by
  unfold declarator
  refine ⟨?_, List.append_ne_nil_of_left_ne_nil f.name.ne_nil _⟩
  cases f.arraylen with
  | none =>
    rw [List.append_nil]
    exact f.name.bare
  | some n =>
    have hclosing : Bare [93] := ⟨fun c hc => Option.some.inj hc ▸ rfl, fun c hc => Option.some.inj hc ▸ rfl⟩
    have h := f.name.bare.append f.name.ne_nil hclosing (List.cons_ne_nil _ _) (91 :: decimal n.val.toNat)
    rwa [List.append_assoc, List.cons_append] at h

theorem declaration_bare : Bare ([32].intercalate f.words) := by
  refine (Bare.intercalate 32 (List.append_ne_nil_of_right_ne_nil _ (List.cons_ne_nil _ _)) ?_).1
  intro word hword
  rcases List.mem_append.1 hword with h | h
  · obtain ⟨w, -, rfl⟩ := List.mem_map.1 h
    exact ⟨w.bare, w.ne_nil⟩
  · rw [List.mem_singleton.1 h]
    exact f.declarator_bare

theorem not_mem_chunk {c : UInt8} (h : c = 9 ∨ c = 10) {name : String} (hname : c ∉ QByteArray.ofString name)
    {value : QByteArray} (hvalue : c ∉ value) : c ∉ chunk name value := by
  rw [chunk, List.mem_append, List.mem_cons, List.mem_append, List.mem_singleton]
  rintro (hc | hc | hc | hc)
  · exact hname hc
  · revert h
    rw [hc]
    decide
  · exact hvalue hc
  · revert h
    rw [hc]
    decide

theorem not_mem_chunks {c : UInt8} (hc : c = 9 ∨ c = 10) : ∀ chunk ∈ f.chunks, c ∉ chunk := by
  have hnumber : ∀ n, c ∉ decimal n := fun n => not_mem_decimal (separates_of (hc.imp_right .inl)).digit n
  have hdeclaration := f.not_mem_declaration (hc.imp_right .inl)
  unfold chunks
  simp only [List.forall_mem_cons]
  refine ⟨List.not_mem_nil, not_mem_chunk hc ?_ hdeclaration, not_mem_chunk hc ?_ (hnumber _),
    not_mem_chunk hc ?_ (hnumber _), not_mem_chunk hc ?_ (hnumber _), fun _ h => (List.not_mem_nil h).elim⟩
  all_goals rcases hc with rfl | rfl <;> decide

theorem line_spec : 10 ∉ f.line ∧ f.line.isEmpty = false := by
  refine ⟨fun h => ?_, rfl⟩
  rcases mem_intercalate h with h | ⟨chunk, hchunk, h⟩
  · revert h
    decide
  · exact f.not_mem_chunks (.inr rfl) chunk hchunk h

theorem splitOn_declaration : ([32].intercalate f.words).splitOn 32 = f.words :=
  List.splitOn_intercalate 32 (separates_space.not_mem_words f)
    (List.append_ne_nil_of_right_ne_nil _ (List.cons_ne_nil _ _))

end TraceField

namespace FormatField

theorem readPointer_word (w : Word) (rest : QByteArray) (field : FormatField) :
    readPointer (w.text ++ rest) field = (w.text ++ rest, field) := by
  rw [readPointer, if_neg]
  rw [List.head?_append_of_ne_nil _ w.ne_nil]
  exact fun h => w.not_mem rfl (List.mem_of_mem_head? h)

/-- A scalar has its name as declarator. -/
theorem readArrayLength_word (w : Word) (field : FormatField) : readArrayLength w.text field = (w.text, field) := by
  rw [readArrayLength, if_neg]
  rintro ⟨h, -⟩
  exact w.not_mem rfl (List.mem_of_getLast? h)

/-- **The length of an array is found behind its name.** -/
theorem readArrayLength_array (w : Word) (n : UInt32) (field : FormatField) :
    readArrayLength (w.text ++ 91 :: (decimal n.toNat ++ [93])) field =
      (w.text, { field.setFlag FIELD_IS_ARRAY with arraylen := n }) := by
  have hclosing : (w.text ++ 91 :: (decimal n.toNat ++ [93])).getLast? = some 93 := by
    rw [List.getLast?_append_of_ne_nil _ (List.cons_ne_nil _ _), ← List.cons_append, List.getLast?_concat]
  have hdigits : ∀ c ∈ (decimal n.toNat).reverse, decide (c ≠ 91) = true := fun c hc => decide_eq_true (fun h => by
    subst h
    exact not_mem_decimal (by decide) _ (List.mem_reverse.1 hc))
  have hreverse : (w.text ++ 91 :: (decimal n.toNat ++ [93])).reverse =
      93 :: ((decimal n.toNat).reverse ++ 91 :: w.text.reverse) := by
    simp
  have hlast : (w.text ++ 91 :: (decimal n.toNat ++ [93])).dropLast.reverse =
      (decimal n.toNat).reverse ++ 91 :: w.text.reverse := by
    rw [← List.tail_reverse, hreverse, List.tail_cons]
  rw [readArrayLength, if_pos ⟨hclosing, List.mem_append_right _ List.mem_cons_self⟩, hlast, hreverse]
  rw [List.takeWhile_append_of_pos hdigits, List.takeWhile_cons_of_neg (by decide), List.append_nil, List.reverse_reverse,
    List.dropWhile_cons_of_pos (by decide), List.dropWhile_append_of_pos hdigits, List.dropWhile_cons_of_neg (by decide),
    List.drop_succ_cons, List.drop_zero, List.reverse_reverse]
  dsimp only
  rw [QByteArray.toUInt_decimal]

/-- The declaration of a field is read back. -/
theorem readDeclaration_words (f : TraceField) : ({} : FormatField).readDeclaration ([32].intercalate f.words) =
    { type := f.typeText, name := f.name.text, arraylen := f.length
      flags := if f.arraylen.isSome then FIELD_IS_ARRAY else 0 } := by
  have hbrackets : (f.type.map Word.text).getLast? ≠ some (QByteArray.ofString "[]") := by
    intro h
    obtain ⟨w, -, hw⟩ := List.mem_map.1 (List.mem_of_getLast? h)
    exact w.not_mem (c := 91) rfl (by rw [hw]; decide)
  have harray : readArrayLength f.declarator {} =
      (f.name.text, { arraylen := f.length, flags := if f.arraylen.isSome then FIELD_IS_ARRAY else 0 }) := by
    unfold TraceField.declarator TraceField.length
    cases f.arraylen with
    | none =>
      dsimp only
      rw [List.append_nil]
      exact readArrayLength_word f.name {}
    | some n => exact readArrayLength_array f.name n.val {}
  rw [readDeclaration, f.declaration_bare.trimmed_eq, f.splitOn_declaration, TraceField.words, List.getLast?_concat,
    List.dropLast_concat, Option.getD_some]
  have hpointer : readPointer f.declarator {} = (f.declarator, {}) := readPointer_word f.name _ {}
  rw [hpointer]
  dsimp only
  rw [harray]
  dsimp only
  rw [if_neg hbrackets]
  rfl

theorem handle_field (value : QByteArray) (field : FormatField) :
    handle (toLower (QByteArray.ofString "field")) value field = field.readDeclaration value := by
  rw [handle, if_pos (by decide)]

theorem handle_offset (value : QByteArray) (field : FormatField) :
    handle (toLower (QByteArray.ofString "offset")) value field = { field with offset := value.toUInt } := by
  rw [handle, if_neg (by decide), if_pos (by decide)]

theorem handle_size (value : QByteArray) (field : FormatField) :
    handle (toLower (QByteArray.ofString "size")) value field = { field with size := value.toUInt } := by
  rw [handle, if_neg (by decide), if_neg (by decide), if_pos (by decide)]

theorem handle_signed (isSigned : Bool) (field : FormatField) :
    handle (toLower (QByteArray.ofString "signed")) (decimal (if isSigned then 1 else 0)) field =
      { field with flags := field.flags ||| (if isSigned then FIELD_IS_SIGNED else 0) } := by
  rw [handle, if_neg (by decide), if_neg (by decide), if_neg (by decide), if_pos (by decide)]
  cases isSigned with
  | true => rw [if_pos rfl, if_pos rfl, QByteArray.toInt_of_digits 1 (by decide), if_pos (by decide), setFlag]
  | false =>
    rw [if_neg Bool.false_ne_true, if_neg Bool.false_ne_true, QByteArray.toInt_of_digits 0 (by decide),
      if_neg (by decide),
      UInt32.or_zero]

/-- A line of a declaration and the numbers behind it. -/
theorem processLine_declaration {declaration : QByteArray} (htab : 9 ∉ declaration) (hcolon : 58 ∉ declaration)
    (hhead : ∀ c ∈ declaration.head?, isSpace c = false) (offset size : UInt32) (isSigned : Bool) :
    processLine handle ([9].intercalate [[], TraceField.chunk "field" declaration,
        TraceField.chunk "offset" (decimal offset.toNat), TraceField.chunk "size" (decimal size.toNat),
        TraceField.chunk "signed" (decimal (if isSigned then 1 else 0))]) {} =
      { ({} : FormatField).readDeclaration declaration with
        offset, size
        flags := (({} : FormatField).readDeclaration declaration).flags |||
          (if isSigned then FIELD_IS_SIGNED else 0) } := by
  have hdigits : ∀ n, ∀ c ∈ (decimal n).head?, isSpace c = false := fun n c hc =>
    isSpace_of_digit (mem_decimal (List.mem_of_mem_head? hc))
  have hnumber : ∀ n, (58 : UInt8) ∉ decimal n := fun n => not_mem_decimal (by decide) n
  have hnumber' : ∀ n, (9 : UInt8) ∉ decimal n := fun n => not_mem_decimal (by decide) n
  rw [processLine_intercalate handle {} (List.cons_ne_nil _ _)]
  · simp only [List.foldl_cons, List.foldl_nil]
    rw [processChunk_of_not_mem handle {} List.not_mem_nil, processChunk_chunk handle _ (by decide) hcolon hhead,
      processChunk_chunk handle _ (by decide) (hnumber _) (hdigits _),
      processChunk_chunk handle _ (by decide) (hnumber _) (hdigits _),
      processChunk_chunk handle _ (by decide) (hnumber _) (hdigits _),
      handle_field, handle_offset, handle_size, handle_signed, QByteArray.toUInt_decimal, QByteArray.toUInt_decimal]
  · simp only [List.forall_mem_cons]
    exact ⟨List.not_mem_nil, TraceField.not_mem_chunk (.inl rfl) (by decide) htab,
      TraceField.not_mem_chunk (.inl rfl) (by decide) (hnumber' _),
      TraceField.not_mem_chunk (.inl rfl) (by decide) (hnumber' _),
      TraceField.not_mem_chunk (.inl rfl) (by decide) (hnumber' _), fun _ h => (List.not_mem_nil h).elim⟩

/-- The line of a field, before what follows from its type. -/
theorem processLine_line (f : TraceField) : processLine handle f.line {} =
    { type := f.typeText, name := f.name.text, offset := f.offset, size := f.size, arraylen := f.length
      flags := (if f.arraylen.isSome then FIELD_IS_ARRAY else 0) ||| (if f.isSigned then FIELD_IS_SIGNED else 0) } := by
  refine (processLine_declaration (f.not_mem_declaration (by decide)) (f.not_mem_declaration (by decide))
    f.declaration_bare.head f.offset f.size f.isSigned).trans ?_
  rw [readDeclaration_words]

/-! What follows from the type leaves the rest alone. -/

theorem has_setFlag {flag flag' : UInt32} (h : flag' &&& flag = 0) (field : FormatField) :
    (field.setFlag flag').has flag = field.has flag := by
  have hmask : (field.flags ||| flag') &&& flag = (field.flags &&& flag) ||| (flag' &&& flag) :=
    UInt32.eq_of_toBitVec_eq BitVec.and_or_distrib_right
  rw [has, setFlag, hmask, h, UInt32.or_zero, has]

theorem flags_spec : ∀ isArray isSigned : Bool,
    (((if isArray then FIELD_IS_ARRAY else 0) ||| (if isSigned then FIELD_IS_SIGNED else 0)) &&& FIELD_IS_ARRAY != 0) =
        isArray ∧
      (((if isArray then FIELD_IS_ARRAY else 0) ||| (if isSigned then FIELD_IS_SIGNED else 0)) &&& FIELD_IS_SIGNED != 0) =
        isSigned := by
  decide

/-- The declaration and the numbers are the same. -/
structure Same (field field' : FormatField) : Prop where
  type : field'.type = field.type
  name : field'.name = field.name
  offset : field'.offset = field.offset
  size : field'.size = field.size
  arraylen : field'.arraylen = field.arraylen
  isArray : field'.has FIELD_IS_ARRAY = field.has FIELD_IS_ARRAY
  isSigned : field'.has FIELD_IS_SIGNED = field.has FIELD_IS_SIGNED

theorem Same.refl (field : FormatField) : field.Same field := ⟨rfl, rfl, rfl, rfl, rfl, rfl, rfl⟩

theorem Same.trans {a b c : FormatField} (h : a.Same b) (h' : b.Same c) : a.Same c :=
  ⟨h'.type.trans h.type, h'.name.trans h.name, h'.offset.trans h.offset, h'.size.trans h.size,
    h'.arraylen.trans h.arraylen, h'.isArray.trans h.isArray, h'.isSigned.trans h.isSigned⟩

theorem same_setFlag {flag : UInt32} (h : flag &&& FIELD_IS_ARRAY = 0) (h' : flag &&& FIELD_IS_SIGNED = 0)
    (field : FormatField) : field.Same (field.setFlag flag) :=
  ⟨rfl, rfl, rfl, rfl, rfl, has_setFlag h field, has_setFlag h' field⟩

theorem same_elementsize (field : FormatField) (elementsize : UInt32) :
    field.Same { field with elementsize := elementsize } := ⟨rfl, rfl, rfl, rfl, rfl, rfl, rfl⟩

theorem same_setTypeFlags (field : FormatField) : field.Same field.setTypeFlags := by
  have hdynamic : field.Same (if QByteArray.ofString "__data_loc" <+: field.type then field.setFlag FIELD_IS_DYNAMIC
      else field) := by
    split
    · exact same_setFlag (by decide) (by decide) field
    · exact .refl field
  unfold setTypeFlags
  dsimp only
  generalize (if QByteArray.ofString "__data_loc" <+: field.type then field.setFlag FIELD_IS_DYNAMIC
    else field) = field' at hdynamic ⊢
  split
  · exact hdynamic.trans (same_setFlag (by decide) (by decide) field')
  · exact hdynamic

theorem same_setElementSize (fileLongSize : Bool) (field : FormatField) :
    field.Same (field.setElementSize fileLongSize) := by
  have hflag : field.Same (field.setFlag FIELD_IS_STRING) := same_setFlag (by decide) (by decide) field
  have hstring := hflag.trans (same_elementsize _ 1)
  unfold setElementSize
  repeat' split
  all_goals first | exact hstring | exact same_elementsize field _

end FormatField

/-- What a field is read as. -/
structure TraceField.Describes (f : TraceField) (field : FormatField) : Prop where
  type : field.type = f.typeText
  name : field.name = f.name.text
  offset : field.offset = f.offset
  size : field.size = f.size
  arraylen : field.arraylen = f.length
  isArray : field.has FormatField.FIELD_IS_ARRAY = f.arraylen.isSome
  isSigned : field.has FormatField.FIELD_IS_SIGNED = f.isSigned

/-- **A field is read back from its line.** -/
theorem TraceField.describes_readFormatField (f : TraceField) (fileLongSize : Bool) :
    f.Describes (FormatField.readFormatField fileLongSize f.line) := by
  have hsame := (FormatField.same_setTypeFlags (processLine FormatField.handle f.line {})).trans
    (FormatField.same_setElementSize fileLongSize _)
  rw [FormatField.readFormatField]
  rw [FormatField.processLine_line] at hsame ⊢
  exact ⟨hsame.type, hsame.name, hsame.offset, hsame.size, hsame.arraylen,
    hsame.isArray.trans (FormatField.flags_spec f.arraylen.isSome f.isSigned).1,
    hsame.isSigned.trans (FormatField.flags_spec f.arraylen.isSome f.isSigned).2⟩

/-! ## Formats -/

namespace FormatReading

variable (fileLongSize : Bool) (s : FormatReading)

theorem trimmed_word (w : Word) : chopSemicolon (trimmed (32 :: w.text)) = w.text := by
  rw [trimmed_cons_space rfl, w.bare.trimmed_eq, chopSemicolon, if_neg]
  exact fun h => w.not_mem (c := 59) rfl (List.mem_of_getLast? h)

theorem not_mem_idText (e : TraceEvent) {c : UInt8} (hc : ¬(48 ≤ c ∧ c ≤ 57)) (hminus : c ≠ 45) : c ∉ e.idText := by
  unfold TraceEvent.idText
  rw [List.mem_append, not_or]
  refine ⟨?_, not_mem_decimal hc _⟩
  split
  · exact fun h => hminus (List.mem_singleton.1 h)
  · exact List.not_mem_nil

theorem idText_bare (e : TraceEvent) : chopSemicolon (trimmed (32 :: e.idText)) = e.idText := by
  have hspace : ∀ c ∈ e.idText, isSpace c = false := by
    intro c hc
    rcases List.mem_append.1 hc with hc | hc
    · split at hc
      · rw [List.mem_singleton.1 hc]
        rfl
      · exact (List.not_mem_nil hc).elim
    · exact isSpace_of_digit (mem_decimal hc)
  rw [trimmed_cons_space rfl, (Bare.of_forall hspace).trimmed_eq, chopSemicolon, if_neg]
  exact fun h => not_mem_idText e (c := 59) (by decide) (by decide) (List.mem_of_getLast? h)

/-! The lines around the fields. -/

theorem processLine_name (w : Word) : processLine handle (QByteArray.ofString "name: " ++ w.text) s =
    { s with event := s.event.setName w.text } := by
  have hline : QByteArray.ofString "name: " ++ w.text = QByteArray.ofString "name" ++ 58 :: (32 :: w.text) := rfl
  have htab : 9 ∉ QByteArray.ofString "name: " ++ w.text := by
    rw [List.mem_append, not_or]
    exact ⟨by decide, w.not_mem rfl⟩
  have hcolon : 58 ∉ (32 :: w.text : QByteArray) := by
    rw [List.mem_cons, not_or]
    exact ⟨by decide, w.not_mem rfl⟩
  rw [processLine_single handle s htab, hline, processChunk_pair handle s (by decide) hcolon, trimmed_word, handle,
    if_pos (by decide)]

theorem processLine_id (e : TraceEvent) : processLine handle (QByteArray.ofString "ID: " ++ e.idText) s =
    { s with id := e.id, seenId := true } := by
  have hline : QByteArray.ofString "ID: " ++ e.idText = QByteArray.ofString "ID" ++ 58 :: (32 :: e.idText) := rfl
  have htab : 9 ∉ QByteArray.ofString "ID: " ++ e.idText := by
    rw [List.mem_append, not_or]
    exact ⟨by decide, not_mem_idText e (by decide) (by decide)⟩
  have hcolon : 58 ∉ (32 :: e.idText : QByteArray) := by
    rw [List.mem_cons, not_or]
    exact ⟨by decide, not_mem_idText e (by decide) (by decide)⟩
  rw [processLine_single handle s htab, hline, processChunk_pair handle s (by decide) hcolon, idText_bare, handle,
    if_neg (by decide), if_pos (by decide), e.toInt_idText]

theorem processLine_format : processLine handle (QByteArray.ofString "format:") s =
    { s with stage := .CommonFields } := by
  have hline : QByteArray.ofString "format:" = QByteArray.ofString "format" ++ 58 :: [] := rfl
  rw [processLine_single handle s (by decide), hline, processChunk_pair handle s (by decide) List.not_mem_nil, handle,
    if_neg (by decide), if_neg (by decide), if_pos (by decide)]

/-- How the event is printed is of no interest, whatever it has in it. -/
theorem processLine_printFmt (printFmt : { s : QByteArray // 9 ∉ s ∧ 10 ∉ s }) :
    processLine handle (QByteArray.ofString "print fmt:" ++ printFmt.val) s = s := by
  have hline : QByteArray.ofString "print fmt:" ++ printFmt.val =
    QByteArray.ofString "print fmt" ++ 58 :: printFmt.val := rfl
  have htab : 9 ∉ QByteArray.ofString "print fmt:" ++ printFmt.val := by
    rw [List.mem_append, not_or]
    exact ⟨by decide, printFmt.property.1⟩
  rw [processLine_single handle s htab, hline, processChunk,
    List.splitOn_append_cons_self_of_not_mem (by decide)]
  cases printFmt.val.splitOn 58 with
  | nil => rfl
  | cons value values =>
    cases values with
    | nil =>
      dsimp only
      rw [handle, if_neg (by decide), if_neg (by decide), if_neg (by decide)]
    | cons _ _ => rfl

/-! The lines of the fields. -/

/-- What the lines of some fields are read as. -/
def readFields (fields : List TraceField) : List FormatField :=
  fields.map (fun f => FormatField.readFormatField fileLongSize f.line)

/-- More fields that all events have. -/
def addCommonFields (fields : List FormatField) : FormatReading :=
  { s with event := { s.event with commonFields := s.event.commonFields ++ fields } }

/-- More fields of the event. -/
def addFields (fields : List FormatField) : FormatReading :=
  { s with event := { s.event with fields := s.event.fields ++ fields } }

/-- Fields are read one after the other, where a line is read as one more field. -/
theorem foldl_readLine (add : FormatReading → List FormatField → FormatReading) {stage : FieldStage}
    (hstage : ∀ s fields, (add s fields).stage = s.stage) (hnil : ∀ s, add s [] = s)
    (happend : ∀ s fields fields', add (add s fields) fields' = add s (fields ++ fields'))
    (hline : ∀ s line, s.stage = stage → line.isEmpty = false →
      s.readLine fileLongSize line = add s [FormatField.readFormatField fileLongSize line]) :
    ∀ (fields : List TraceField) (s : FormatReading), s.stage = stage →
      (fields.map TraceField.line).foldl (readLine fileLongSize) s = add s (readFields fileLongSize fields)
  | [], s, _ => (hnil s).symm
  | f :: fields, s, hs => by
    rw [List.map_cons, List.foldl_cons, hline s f.line hs f.line_spec.2,
      foldl_readLine add hstage hnil happend hline fields _ ((hstage s _).trans hs), happend]
    rfl

theorem foldl_commonFields (fields : List TraceField) {s : FormatReading} (hs : s.stage = .CommonFields) :
    (fields.map TraceField.line).foldl (readLine fileLongSize) s =
      s.addCommonFields (readFields fileLongSize fields) := by
  refine foldl_readLine fileLongSize addCommonFields (fun _ _ => rfl) (fun s => ?_) (fun s a b => ?_)
    (fun s line hs hline => ?_) fields s hs
  · rw [addCommonFields, List.append_nil]
  · rw [addCommonFields, addCommonFields, addCommonFields, List.append_assoc]
  · rw [readLine, hs]
    dsimp only
    rw [hline, if_neg Bool.false_ne_true, addCommonFields, hs]

theorem foldl_fields (fields : List TraceField) {s : FormatReading} (hs : s.stage = .NonCommonFields) :
    (fields.map TraceField.line).foldl (readLine fileLongSize) s = s.addFields (readFields fileLongSize fields) := by
  refine foldl_readLine fileLongSize addFields (fun _ _ => rfl) (fun s => ?_) (fun s a b => ?_)
    (fun s line hs hline => ?_) fields s hs
  · rw [addFields, List.append_nil]
  · rw [addFields, addFields, addFields, List.append_assoc]
  · rw [readLine, hs]
    dsimp only
    rw [hline, if_neg Bool.false_ne_true, addFields, hs]

/-! A whole format. -/

theorem readLine_text {s : FormatReading} (hs : s.stage = .BeforeFields ∨ s.stage = .AfterFields) (line : QByteArray) :
    s.readLine fileLongSize line = processLine handle line s := by
  rcases hs with hs | hs
  · rw [readLine, hs]
  · rw [readLine, hs]

theorem foldl_head (system : QByteArray) (e : TraceEvent) :
    [QByteArray.ofString "name: " ++ e.name.text, QByteArray.ofString "ID: " ++ e.idText,
        QByteArray.ofString "format:"].foldl (readLine fileLongSize) { event := .ofSystem system } =
      { stage := .CommonFields, id := e.id, seenId := true
        event := (EventFormat.ofSystem system).setName e.name.text } := by
  have hname := (readLine_text fileLongSize (s := { event := .ofSystem system }) (.inl rfl) _).trans
    (processLine_name _ e.name)
  have hid := (readLine_text fileLongSize (s := { event := (EventFormat.ofSystem system).setName e.name.text }) (.inl rfl)
    _).trans (processLine_id _ e)
  rw [List.foldl_cons, hname, List.foldl_cons, hid, List.foldl_cons, List.foldl_nil]
  exact (readLine_text fileLongSize (.inl rfl) _).trans (processLine_format _)

theorem foldl_body (e : TraceEvent) {s : FormatReading} (hs : s.stage = .CommonFields) :
    (e.commonFields.map TraceField.line ++ [[]] ++ (e.fields.map TraceField.line ++ [[]])).foldl
        (readLine fileLongSize) s =
      { (s.addCommonFields (readFields fileLongSize e.commonFields)).addFields (readFields fileLongSize e.fields) with
        stage := .AfterFields } := by
  have hblank : ((s.addCommonFields (readFields fileLongSize e.commonFields)).readLine fileLongSize []) =
      { s.addCommonFields (readFields fileLongSize e.commonFields) with stage := .NonCommonFields } := by
    rw [readLine, show (s.addCommonFields _).stage = .CommonFields from hs]
    rfl
  simp only [List.foldl_append, List.foldl_cons, List.foldl_nil]
  rw [foldl_commonFields fileLongSize _ hs, hblank, foldl_fields fileLongSize _ rfl]
  rfl

theorem foldl_tail (e : TraceEvent) {s : FormatReading} (hs : s.stage = .AfterFields) :
    [QByteArray.ofString "print fmt:" ++ e.printFmt.val, []].foldl (readLine fileLongSize) s = s := by
  rw [List.foldl_cons, readLine_text fileLongSize (.inr hs), processLine_printFmt, List.foldl_cons, List.foldl_nil]
  exact readLine_text fileLongSize (.inr hs) []

/-- No line of a format is broken. -/
theorem not_mem_lines (e : TraceEvent) : ∀ line ∈ e.lines, 10 ∉ line := by
  have hfields : ∀ fields : List TraceField, ∀ line ∈ fields.map TraceField.line ++ [[]], 10 ∉ line := by
    intro fields line hline
    rcases List.mem_append.1 hline with h | h
    · obtain ⟨f, -, rfl⟩ := List.mem_map.1 h
      exact f.line_spec.1
    · rw [List.mem_singleton.1 h]
      exact List.not_mem_nil
  intro line hline
  rcases List.mem_append.1 hline with h | h
  · rcases List.mem_append.1 h with h | h
    · simp only [List.mem_cons, List.not_mem_nil, or_false] at h
      rcases h with rfl | rfl | rfl
      · rw [List.mem_append, not_or]
        exact ⟨by decide, e.name.not_mem rfl⟩
      · rw [List.mem_append, not_or]
        exact ⟨by decide, not_mem_idText e (by decide) (by decide)⟩
      · decide
    · rcases List.mem_append.1 h with h | h
      · exact hfields _ line h
      · exact hfields _ line h
  · rw [List.mem_singleton.1 h, List.mem_append, not_or]
    exact ⟨by decide, e.printFmt.property.2⟩

/-- **A format is read back from its text.** -/
theorem read_text (system : QByteArray) (e : TraceEvent) :
    read fileLongSize system e.text =
      { stage := .AfterFields, id := e.id, seenId := true
        event :=
          { (EventFormat.ofSystem system).setName e.name.text with
            commonFields := readFields fileLongSize e.commonFields
            fields := readFields fileLongSize e.fields } } := by
  have hlines : e.lines ++ [[]] =
      [QByteArray.ofString "name: " ++ e.name.text, QByteArray.ofString "ID: " ++ e.idText, QByteArray.ofString "format:"]
        ++ ((e.commonFields.map TraceField.line ++ [[]] ++ (e.fields.map TraceField.line ++ [[]]))
          ++ [QByteArray.ofString "print fmt:" ++ e.printFmt.val, []]) := by
    rw [TraceEvent.lines, List.append_assoc, List.append_assoc]
    rfl
  rw [read, TraceEvent.text, splitOn_unlines (not_mem_lines e), hlines, List.foldl_append, foldl_head, List.foldl_append,
    foldl_body fileLongSize e rfl]
  exact foldl_tail fileLongSize e rfl

end FormatReading

end PerfParser
