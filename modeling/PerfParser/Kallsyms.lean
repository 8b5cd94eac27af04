import Mathlib.Data.List.DropRight
import PerfParser.HexNumbers
import PerfParser.Lib.LowerBound
import PerfParser.SymbolTable
/-!
# Kallsyms — the symbols of the kernel (`perfkallsyms.cpp`)

The text is read word by word: an address, a type, a symbol, and if a tab is right behind the symbol, its module.  The
entries with an address are sorted by it, and the last one that is not above an address is found for it
(`findEntry_parseMapping`).
-/
namespace PerfParser

open LowerBound StableSort Text

/-! ## The text stream -/

namespace QTextStream

/-- `QChar::isSpace` of a Latin-1 character. -/
def isSpaceChar (c : UInt8) : Bool := isSpace c || c == 0x85 || c == 0xA0

/-- `Qt::ws`. -/
def skipWhiteSpace (stream : QByteArray) : QByteArray := stream.dropWhile isSpaceChar

/-- The next word, behind white space, and what is left behind it. -/
def readWord (stream : QByteArray) : QByteArray × QByteArray :=
  ((skipWhiteSpace stream).takeWhile (fun c => !isSpaceChar c), (skipWhiteSpace stream).dropWhile (fun c => !isSpaceChar c))

/-- The next character; at the end it is zero. -/
def readChar (stream : QByteArray) : UInt8 × QByteArray := (stream.head?.getD 0, stream.tail)

end QTextStream

open QTextStream

/-- The order of the entries. -/
def kallsymsOrder (entry : PerfKallsymEntry) : UInt64 := entry.address

structure PerfKallsyms where
  entries : List PerfKallsymEntry := []
  errorString : QByteArray := []
deriving DecidableEq, Repr, Inhabited

namespace PerfKallsyms

/-- What `parseMapping` has read; `reading` until the loop is left. -/
structure Parse where
  stream : QByteArray
  entries : List PerfKallsymEntry := []
  errorString : QByteArray := []
  valid : Bool := true
  reading : Bool := true
deriving DecidableEq, Repr

/-- What is read of an entry before its module. -/
structure Words where
  address : QByteArray
  symbol : QByteArray
  eol : UInt8
  stream : QByteArray
deriving DecidableEq, Repr

/-- `stream >> address >> Qt::ws >> type >> Qt::ws >> entry.symbol >> eol`. -/
def readWords (stream : QByteArray) : Words :=
  let (address, stream) := readWord stream
  let (_type, stream) := readChar (skipWhiteSpace stream)
  let (symbol, stream) := readWord (skipWhiteSpace stream)
  let (eol, stream) := readChar stream
  { address, symbol, eol, stream }

namespace Parse

/-- One round of the loop. -/
def readEntry (p : Parse) : Parse :=
  let words := readWords p.stream
  if words.address.isEmpty then { p with stream := words.stream, reading := false }
  else if QByteArray.toULongLong16 words.address = none ∧ words.address ≠ QByteArray.ofString "(null)" then
    { p with
      stream := words.stream
      errorString := QByteArray.ofString "Invalid address: " ++ words.address
      valid := false
      reading := false }
  else
    let (module, stream) := if words.eol = 9 then readWord words.stream else ([], words.stream)
    let entry : PerfKallsymEntry :=
      { address := (QByteArray.toULongLong16 words.address).getD 0, symbol := words.symbol, module }
    { p with stream := stream, entries := if entry.address ≠ 0 then p.entries ++ [entry] else p.entries }

/-- What is still to be read, and the round that meets the end. -/
def left (p : Parse) : Nat := if p.reading then p.stream.length + 1 else 0

end Parse

theorem length_skipWhiteSpace (stream : QByteArray) : (skipWhiteSpace stream).length ≤ stream.length :=
  (List.dropWhile_suffix _).length_le

theorem length_readWord (stream : QByteArray) :
    (readWord stream).1.length + (readWord stream).2.length ≤ stream.length := by
  have hsplit := congrArg List.length
    (List.takeWhile_append_dropWhile (p := fun c => !isSpaceChar c) (l := skipWhiteSpace stream))
  rw [List.length_append] at hsplit
  rw [readWord, hsplit]
  exact length_skipWhiteSpace stream

theorem length_readChar (stream : QByteArray) : (readChar stream).2.length ≤ stream.length := by
  rw [readChar, List.length_tail]
  exact Nat.sub_le _ _

theorem length_readWords (stream : QByteArray) :
    (readWords stream).address.length + (readWords stream).stream.length ≤ stream.length := by
  have haddress := length_readWord stream
  have hskip := length_skipWhiteSpace (readWord stream).2
  have htype := length_readChar (skipWhiteSpace (readWord stream).2)
  have hskip' := length_skipWhiteSpace (readChar (skipWhiteSpace (readWord stream).2)).2
  have hsymbol := length_readWord (skipWhiteSpace (readChar (skipWhiteSpace (readWord stream).2)).2)
  have heol := length_readChar (readWord (skipWhiteSpace (readChar (skipWhiteSpace (readWord stream).2)).2)).2
  rw [readWords]
  dsimp only
  omega

namespace Parse

/-- **Each round takes an address, or is the last.** -/
theorem left_readEntry {p : Parse} (h : p.reading = true) : p.readEntry.left < p.left := by
  have hwords := length_readWords p.stream
  have hmodule := length_readWord (readWords p.stream).stream
  rw [left, left, h, if_pos rfl, readEntry]
  dsimp only
  by_cases haddress : (readWords p.stream).address.isEmpty = true
  · rw [if_pos haddress]
    exact Nat.succ_pos _
  · have hpos : 0 < (readWords p.stream).address.length :=
      List.length_pos_iff.2 fun hnil => haddress (List.isEmpty_iff.2 hnil)
    rw [if_neg haddress]
    split
    · exact Nat.succ_pos _
    · split <;> dsimp only <;> omega

/-- The loop. -/
def read (p : Parse) : Parse := if p.reading then p.readEntry.read else p
termination_by p.left
decreasing_by exact left_readEntry ‹_›

end Parse

/-- `PerfKallsyms::parseMapping` of what the file holds, or of the error that opening it has met. -/
def parseMapping (sorter : Sorter kallsymsOrder) (file : Except QByteArray QByteArray) : Bool × PerfKallsyms :=
  match file with
  | .error errorString => (false, { errorString })
  | .ok text =>
    let p := Parse.read { stream := text }
    if p.valid = true ∧ p.entries.isEmpty = true then
      (false, { entries := p.entries, errorString := QByteArray.ofString "Mapping is empty." })
    else (p.valid, { entries := sorter.sort p.entries, errorString := p.errorString })

def findEntry (kallsyms : PerfKallsyms) (address : UInt64) : PerfKallsymEntry := findKallsymEntry kallsyms.entries address

end PerfKallsyms

/-! ## Lines -/

/-- A word of a line. -/
structure KallsymsWord where
  text : QByteArray
  ne : text ≠ []
  bytes : ∀ c ∈ text, isSpaceChar c = false

/-- A line, with white space in front of it; without an address it has "(null)". -/
structure KallsymsLine where
  indent : QByteArray
  blank : ∀ c ∈ indent, isSpaceChar c = true
  number : Option HexNumber
  type : UInt8
  type_bytes : isSpaceChar type = false
  symbol : KallsymsWord
  module : Option KallsymsWord

namespace KallsymsLine

def address (line : KallsymsLine) : UInt64 :=
  match line.number with
  | some n => n.value
  | none => 0

def addressText (line : KallsymsLine) : QByteArray :=
  match line.number with
  | some n => n.text
  | none => QByteArray.ofString "(null)"

def moduleText (line : KallsymsLine) : QByteArray :=
  match line.module with
  | some m => m.text
  | none => []

def text (line : KallsymsLine) : QByteArray :=
  line.indent ++ line.addressText ++ 32 :: line.type :: 32 :: line.symbol.text ++
    (match line.module with
    | some m => 9 :: m.text
    | none => [])

def entry (line : KallsymsLine) : PerfKallsymEntry where
  address := line.address
  symbol := line.symbol.text
  module := line.moduleText

end KallsymsLine

/-- A text of lines; the last one need not be ended. -/
def kallsymsText (lines : List KallsymsLine) (ended : Bool) : QByteArray :=
  [10].intercalate (lines.map KallsymsLine.text) ++ (if ended then [10] else [])

/-! ## What is read of a line -/

namespace QTextStream

/-- What may stand behind a word. -/
def EndsWord (rest : QByteArray) : Prop := ∀ c ∈ rest.head?, isSpaceChar c = true

theorem skipWhiteSpace_blank {indent : QByteArray} (h : ∀ c ∈ indent, isSpaceChar c = true) (stream : QByteArray) :
    skipWhiteSpace (indent ++ stream) = skipWhiteSpace stream :=
  List.dropWhile_append_of_pos h

theorem skipWhiteSpace_cons {c : UInt8} (h : isSpaceChar c = false) (stream : QByteArray) :
    skipWhiteSpace (c :: stream) = c :: stream :=
  List.dropWhile_cons_of_neg (ne_true_of_eq_false h)

/-- **A word behind white space is read up to the white space behind it.** -/
theorem readWord_append (indent : QByteArray) {word : QByteArray} (rest : QByteArray)
    (hindent : ∀ c ∈ indent, isSpaceChar c = true) (hne : word ≠ []) (hword : ∀ c ∈ word, isSpaceChar c = false)
    (hrest : EndsWord rest) :
    readWord (indent ++ word ++ rest) = (word, rest) := by
  have hskip : skipWhiteSpace (indent ++ word ++ rest) = word ++ rest := by
    rw [List.append_assoc, skipWhiteSpace_blank hindent]
    cases word with
    | nil => exact absurd rfl hne
    | cons c word => exact skipWhiteSpace_cons (hword c List.mem_cons_self) _
  have hbytes : ∀ c ∈ word, (!isSpaceChar c) = true := fun c hc => by
    rw [hword c hc]
    rfl
  have hend : rest.takeWhile (fun c => !isSpaceChar c) = [] ∧ rest.dropWhile (fun c => !isSpaceChar c) = rest := by
    cases rest with
    | nil => exact ⟨rfl, rfl⟩
    | cons c rest =>
      have hneg : ¬(!isSpaceChar c) = true := by
        rw [hrest c rfl]
        exact Bool.false_ne_true
      exact ⟨List.takeWhile_cons_of_neg hneg, List.dropWhile_cons_of_neg hneg⟩
  rw [readWord, hskip, List.takeWhile_append_of_pos hbytes, List.dropWhile_append_of_pos hbytes, hend.1, hend.2,
    List.append_nil]

theorem readWord_skipWhiteSpace (stream : QByteArray) : readWord (skipWhiteSpace stream) = readWord stream := by
  have hskip : skipWhiteSpace (skipWhiteSpace stream) = skipWhiteSpace stream := List.dropWhile_idempotent _ _
  rw [readWord, hskip, readWord]

/-- Behind white space there may be no word. -/
theorem readWord_blank {stream : QByteArray} (h : ∀ c ∈ stream, isSpaceChar c = true) : readWord stream = ([], []) := by
  have hskip : skipWhiteSpace stream = [] := List.dropWhile_eq_nil_iff.2 h
  rw [readWord, hskip]
  rfl

end QTextStream

namespace HexNumber

theorem isSpaceChar_eq (n : HexNumber) {c : UInt8} (h : c ∈ n.text) : isSpaceChar c = false := by
  have hne : ∀ b : UInt8, ¬digitValue b < 16 → (c == b) = false := fun b hb =>
    beq_false_of_ne fun hcb => n.not_mem hb (hcb ▸ h)
  rw [isSpaceChar, n.isSpace_eq h, hne 0x85 (by decide), hne 0xA0 (by decide)]
  rfl

end HexNumber

namespace KallsymsLine

variable (line : KallsymsLine)

theorem addressText_ne : line.addressText ≠ [] := by
  rw [addressText]
  cases line.number with
  | some n => exact n.ne
  | none => decide

theorem addressText_bytes : ∀ c ∈ line.addressText, isSpaceChar c = false := by
  rw [addressText]
  cases line.number with
  | some n => exact fun c hc => n.isSpaceChar_eq hc
  | none =>
    have hnull : (QByteArray.ofString "(null)").all (fun c => !isSpaceChar c) = true := by decide
    exact fun c hc => (Bool.not_eq_true' _).mp (List.all_eq_true.1 hnull c hc)

/-- An address is read, or "(null)" is let pass. -/
theorem addressText_accepted : ¬(QByteArray.toULongLong16 line.addressText = none ∧
    line.addressText ≠ QByteArray.ofString "(null)") := by
  rw [addressText]
  cases line.number with
  | some n =>
    dsimp only
    rw [n.toULongLong16_text]
    exact fun h => Option.some_ne_none _ h.1
  | none => exact fun h => h.2 rfl

theorem toULongLong16_addressText : (QByteArray.toULongLong16 line.addressText).getD 0 = line.address := by
  rw [addressText, address]
  cases line.number with
  | some n =>
    dsimp only
    rw [n.toULongLong16_text]
    rfl
  | none => rfl

/-- What comes behind the symbol. -/
def moduleSuffix : QByteArray :=
  match line.module with
  | some m => 9 :: m.text
  | none => []

theorem readWords_line {indent rest : QByteArray} (hindent : ∀ c ∈ indent, isSpaceChar c = true)
    (hrest : EndsWord rest) : PerfKallsyms.readWords (indent ++ line.text ++ rest) =
      { address := line.addressText, symbol := line.symbol.text, eol := (readChar (line.moduleSuffix ++ rest)).1,
        stream := (readChar (line.moduleSuffix ++ rest)).2 } := by
  have hsuffix : EndsWord (line.moduleSuffix ++ rest) := by
    rw [moduleSuffix]
    cases line.module with
    | none => exact hrest
    | some m =>
      intro c hc
      obtain rfl := Option.some.inj hc
      rfl
  have hsplit : indent ++ line.text ++ rest =
      (indent ++ line.indent) ++ line.addressText ++
        (32 :: line.type :: 32 :: (line.symbol.text ++ (line.moduleSuffix ++ rest))) := by
    rw [text, moduleSuffix]
    simp only [List.append_assoc, List.cons_append]
  have haddress := readWord_append (indent ++ line.indent)
    (32 :: line.type :: 32 :: (line.symbol.text ++ (line.moduleSuffix ++ rest)))
    (fun c hc => (List.mem_append.1 hc).elim (hindent c) (line.blank c)) line.addressText_ne line.addressText_bytes
    (fun c hc => by
      obtain rfl := Option.some.inj hc
      rfl)
  have htype : skipWhiteSpace (32 :: line.type :: 32 :: (line.symbol.text ++ (line.moduleSuffix ++ rest))) =
      line.type :: 32 :: (line.symbol.text ++ (line.moduleSuffix ++ rest)) := by
    rw [skipWhiteSpace, List.dropWhile_cons_of_pos rfl]
    exact skipWhiteSpace_cons line.type_bytes _
  have hsymbol : readWord (skipWhiteSpace (32 :: (line.symbol.text ++ (line.moduleSuffix ++ rest)))) =
      (line.symbol.text, line.moduleSuffix ++ rest) := by
    have hword := readWord_append [32] _ (List.forall_mem_singleton.2 rfl) line.symbol.ne line.symbol.bytes hsuffix
    rwa [List.append_assoc, List.singleton_append, ← readWord_skipWhiteSpace] at hword
  rw [PerfKallsyms.readWords, hsplit, haddress]
  dsimp only
  rw [htype, readChar, List.head?_cons, List.tail_cons, hsymbol]

/-- **A round reads a line**, and perhaps what ends it. -/
theorem readEntry_line {p : PerfKallsyms.Parse} {indent rest : QByteArray}
    (hindent : ∀ c ∈ indent, isSpaceChar c = true) (hrest : ∀ c ∈ rest.head?, c = 10)
    (hp : p.stream = indent ++ line.text ++ rest) :
    ∃ stream, (stream = rest ∨ stream = rest.tail) ∧ p.readEntry =
      { p with
        stream := stream
        entries := if line.address ≠ 0 then p.entries ++ [line.entry] else p.entries } := by
  have hends : EndsWord rest := fun c hc => by
    rw [hrest c hc]
    rfl
  have haddress : ¬line.addressText.isEmpty = true := fun h => line.addressText_ne (List.isEmpty_iff.1 h)
  rw [PerfKallsyms.Parse.readEntry, hp, line.readWords_line hindent hends]
  dsimp only
  rw [if_neg haddress, if_neg line.addressText_accepted, line.toULongLong16_addressText, entry, moduleText, moduleSuffix]
  cases line.module with
  | none =>
    have heol : (readChar ([] ++ rest)).1 ≠ 9 := by
      rw [List.nil_append, readChar]
      cases rest with
      | nil => decide
      | cons c rest =>
        obtain rfl := hrest c rfl
        exact fun h => absurd h (by decide : (10 : UInt8) ≠ 9)
    refine ⟨rest.tail, .inr rfl, ?_⟩
    dsimp only
    rw [if_neg heol, List.nil_append, readChar]
  | some m =>
    have hword := readWord_append [] _ (fun _ h => (List.not_mem_nil h).elim) m.ne m.bytes hends
    rw [List.nil_append] at hword
    refine ⟨rest, .inl rfl, ?_⟩
    dsimp only
    rw [List.cons_append, readChar, List.head?_cons, List.tail_cons, Option.getD_some, if_pos rfl, hword]

end KallsymsLine

theorem kallsymsText_cons (line : KallsymsLine) (lines : List KallsymsLine) (ended : Bool) :
    ∃ rest, kallsymsText (line :: lines) ended = line.text ++ rest ∧ (∀ c ∈ rest.head?, c = 10) ∧
      ∀ stream, stream = rest ∨ stream = rest.tail →
        ∃ indent ended, (∀ c ∈ indent, isSpaceChar c = true) ∧ stream = indent ++ kallsymsText lines ended := by
  cases lines with
  | nil =>
    refine ⟨if ended then [10] else [], ?_, fun c hc => ?_, ?_⟩
    · rw [kallsymsText, List.map_singleton, List.intercalate_singleton]
    · split at hc
      · exact (Option.some.inj hc).symm
      · cases hc
    · rintro stream (rfl | rfl)
      · exact ⟨[], ended, fun _ h => (List.not_mem_nil h).elim, rfl⟩
      · refine ⟨[], false, fun _ h => (List.not_mem_nil h).elim, ?_⟩
        split <;> rfl
  | cons line' lines =>
    refine ⟨10 :: kallsymsText (line' :: lines) ended, ?_, fun c hc => (Option.some.inj hc).symm, ?_⟩
    · rw [kallsymsText, List.map_cons, List.map_cons, List.intercalate_cons_cons, kallsymsText, List.map_cons]
      simp only [List.append_assoc, List.nil_append, List.cons_append]
    · rintro stream (rfl | rfl)
      · exact ⟨[10], ended, List.forall_mem_singleton.2 rfl, rfl⟩
      · exact ⟨[], ended, fun _ h => (List.not_mem_nil h).elim, rfl⟩

namespace PerfKallsyms

/-- The entries of a text. -/
def entriesOf (lines : List KallsymsLine) : List PerfKallsymEntry :=
  (lines.map KallsymsLine.entry).filter (fun entry => entry.address ≠ 0)

theorem mem_entriesOf {lines : List KallsymsLine} {entry : PerfKallsymEntry} :
    entry ∈ entriesOf lines ↔ ∃ line ∈ lines, line.address ≠ 0 ∧ line.entry = entry := by
  rw [entriesOf, List.mem_filter, List.mem_map, decide_eq_true_iff]
  constructor
  · rintro ⟨⟨line, hline, rfl⟩, hne⟩
    exact ⟨line, hline, hne, rfl⟩
  · rintro ⟨line, hline, hne, rfl⟩
    exact ⟨⟨line, hline, rfl⟩, hne⟩

theorem entriesOf_cons (line : KallsymsLine) (lines : List KallsymsLine) (entries : List PerfKallsymEntry) :
    (if line.address ≠ 0 then entries ++ [line.entry] else entries) ++ entriesOf lines =
      entries ++ entriesOf (line :: lines) := by
  rw [entriesOf, entriesOf, List.map_cons, List.filter_cons]
  by_cases hne : line.address ≠ 0
  · have hentry : decide (line.entry.address ≠ 0) = true := decide_eq_true hne
    rw [if_pos hne, if_pos hentry, List.append_assoc, List.singleton_append]
  · have hentry : ¬decide (line.entry.address ≠ 0) = true := fun h => hne (of_decide_eq_true h)
    rw [if_neg hne, if_neg hentry]

/-- **All lines are read, and of each with an address there is an entry.** -/
theorem read_text : ∀ (lines : List KallsymsLine) {p : Parse} (indent : QByteArray) {ended : Bool}, p.reading = true →
    (∀ c ∈ indent, isSpaceChar c = true) → p.stream = indent ++ kallsymsText lines ended →
    p.read = { p with stream := [], entries := p.entries ++ entriesOf lines, reading := false }
  | [], p, indent, ended, hreading, hindent, hp => by
    have hblank : ∀ c ∈ p.stream, isSpaceChar c = true := fun c hc => by
      rw [hp] at hc
      rcases List.mem_append.1 hc with hc | hc
      · exact hindent c hc
      · rw [kallsymsText] at hc
        cases ended with
        | true =>
          rw [List.mem_singleton.1 hc]
          rfl
        | false => exact (List.not_mem_nil hc).elim
    have hwords : readWords p.stream = { address := [], symbol := [], eol := 0, stream := [] } := by
      rw [readWords, readWord_blank hblank]
      rfl
    rw [Parse.read, if_pos hreading, Parse.readEntry, hwords]
    dsimp only
    rw [if_pos List.isEmpty_nil, Parse.read, if_neg Bool.false_ne_true, entriesOf, List.map_nil, List.filter_nil, List.append_nil]
  | line :: lines, p, indent, ended, hreading, hindent, hp => by
    obtain ⟨rest, htext, hrest, hnext⟩ := kallsymsText_cons line lines ended
    obtain ⟨stream, hstream, hentry⟩ := line.readEntry_line hindent hrest
      (hp.trans (by rw [htext, List.append_assoc]))
    obtain ⟨indent', ended', hindent', hstream'⟩ := hnext stream hstream
    have hnext := read_text lines (p := p.readEntry) indent' (by rw [hentry]; exact hreading)
      hindent' (by rw [hentry]; exact hstream')
    rw [Parse.read, if_pos hreading, hnext, hentry]
    dsimp only
    rw [entriesOf_cons]

/-- What is left of a text of lines: an empty mapping is an error, and any other is sorted. -/
theorem parseMapping_text (sorter : Sorter kallsymsOrder) (lines : List KallsymsLine) (ended : Bool) :
    ((parseMapping sorter (.ok (kallsymsText lines ended))).1 = true ↔ entriesOf lines ≠ []) ∧
      (parseMapping sorter (.ok (kallsymsText lines ended))).2.entries = sorter.sort (entriesOf lines) := by
  have hread := read_text lines (p := { stream := kallsymsText lines ended }) [] rfl
    (fun _ h => (List.not_mem_nil h).elim) rfl
  rw [parseMapping, hread]
  dsimp only
  rw [List.nil_append]
  by_cases hempty : entriesOf lines = []
  · rw [hempty, if_pos ⟨rfl, rfl⟩]
    exact ⟨iff_of_false Bool.false_ne_true fun h => h rfl, (List.perm_nil.1 (sorter.perm [])).symm⟩
  · rw [if_neg fun h => hempty (List.isEmpty_iff.1 h.2)]
    exact ⟨iff_of_true rfl hempty, rfl⟩

/-- **The kernel symbols are accepted if one has an address, and for any address the nearest one is found.** -/
theorem findEntry_parseMapping (sorter : Sorter kallsymsOrder) (lines : List KallsymsLine) (ended : Bool) :
    ((parseMapping sorter (.ok (kallsymsText lines ended))).1 = true ↔ ∃ line ∈ lines, line.address ≠ 0) ∧
    ∀ a : UInt64,
      (∃ line ∈ lines, (line.address ≠ 0 ∧ line.address ≤ a ∧
          ∀ l ∈ lines, l.address ≠ 0 → l.address ≤ a → l.address ≤ line.address) ∧
        ((parseMapping sorter (.ok (kallsymsText lines ended))).2.findEntry a).symbol = line.symbol.text ∧
        ((parseMapping sorter (.ok (kallsymsText lines ended))).2.findEntry a).module = line.moduleText) ∨
      (∀ line ∈ lines, line.address ≠ 0 → ¬line.address ≤ a) ∧
        (parseMapping sorter (.ok (kallsymsText lines ended))).2.findEntry a = {} := by
  obtain ⟨hvalid, hentries⟩ := parseMapping_text sorter lines ended
  have hsorted := sorter.sorted (entriesOf lines)
  have hmem : ∀ line ∈ lines, line.address ≠ 0 → line.entry ∈ sorter.sort (entriesOf lines) := fun line hline hne =>
    sorter.mem_sort.2 (mem_entriesOf.2 ⟨line, hline, hne, rfl⟩)
  refine ⟨hvalid.trans ?_, fun a => ?_⟩
  · constructor
    · intro hne
      obtain ⟨entry, hentry⟩ := List.exists_mem_of_ne_nil _ hne
      obtain ⟨line, hline, haddress, -⟩ := mem_entriesOf.1 hentry
      exact ⟨line, hline, haddress⟩
    · rintro ⟨line, hline, haddress⟩
      exact List.ne_nil_of_mem (mem_entriesOf.2 ⟨line, hline, haddress, rfl⟩)
  · rw [findEntry, findKallsymEntry, hentries]
    cases hlast : ((sorter.sort (entriesOf lines)).takeWhile (fun entry => entry.address ≤ a)).getLast? with
    | none =>
      refine .inr ⟨fun line hline hne => ?_, rfl⟩
      exact (getLast?_takeWhile_le_eq_none_iff kallsymsOrder hsorted).1 hlast _ (hmem line hline hne)
    | some entry =>
      obtain ⟨hentry, hle, hgreatest⟩ := getLast?_takeWhile_le kallsymsOrder hsorted hlast
      obtain ⟨line, hline, hne, rfl⟩ := mem_entriesOf.1 (sorter.mem_sort.1 hentry)
      exact .inl ⟨line, hline, ⟨hne, hle, fun l hl hl' => hgreatest _ (hmem l hl hl')⟩, rfl, rfl⟩

/-- A function of a module behind one of the kernel, and a symbol whose address is kept secret. -/
theorem findEntry_module :
    let word (s : String) (ne : (QByteArray.ofString s).isEmpty = false)
        (h : (QByteArray.ofString s).all (fun c => !isSpaceChar c) = true) : KallsymsWord :=
      ⟨QByteArray.ofString s, fun hs => by simp [hs] at ne, fun c hc => by simpa using List.all_eq_true.1 h c hc⟩
    let hidden : KallsymsLine := ⟨[], by simp, none, 116, rfl, word "secret" rfl rfl, none⟩
    let kernel : KallsymsLine :=
      ⟨[], by simp, some ⟨QByteArray.ofString "ff10", by decide, rfl, by decide⟩, 84, rfl, word "start" rfl rfl, none⟩
    let module : KallsymsLine :=
      ⟨[32], by simp [isSpaceChar, isSpace], some ⟨QByteArray.ofString "ff20", by decide, rfl, by decide⟩, 116, rfl,
        word "init" rfl rfl, some (word "[ext4]" rfl rfl)⟩
    let entry := (parseMapping stable (.ok (kallsymsText [hidden, module, kernel] true))).2.findEntry 0xff28
    entry.symbol = QByteArray.ofString "init" ∧ entry.module = QByteArray.ofString "[ext4]" := by
  intro word hidden kernel module entry
  rcases (findEntry_parseMapping stable [hidden, module, kernel] true).2 0xff28 with
    ⟨line, hline, ⟨hne, -, hgreatest⟩, hsymbol, hmodule⟩ | ⟨hnone, -⟩
  · rcases List.mem_cons.1 hline with rfl | hline
    · exact absurd rfl hne
    · rcases List.mem_cons.1 hline with rfl | hline
      · exact ⟨hsymbol, hmodule⟩
      · rw [List.mem_singleton.1 hline] at hgreatest
        exact absurd (hgreatest module (by simp) (by decide) (by decide)) (by decide)
  · exact absurd (hnone module (by simp) (by decide)) (fun h => h (by decide))

end PerfKallsyms

end PerfParser
