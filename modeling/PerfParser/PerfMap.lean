import PerfParser.HexNumbers
import PerfParser.Lib.LowerBound
import PerfParser.SymbolTable
/-!
# PerfMap — the symbols that a JIT writes (`perfsymboltable.cpp`)

A perf map has a line for each symbol: its start, its length and its name.  It is read again while it is written, from
where the last reading ended.  The entries are sorted by their start, and for an address only the last one that does
not start above it is looked at, so an entry that has the address may be passed over (`symbolFromPerfMap_finds_iff`).
-/
namespace PerfParser

open LowerBound StableSort Text

/-! ## Reading -/

/-- The lines that `readLine` yields until the end, each with what ends it. -/
def readLines : QByteArray → List QByteArray
  | [] => []
  | c :: text =>
    if c = 10 then [c] :: readLines text
    else match readLines text with
      | line :: lines => (c :: line) :: lines
      | [] => [[c]]

/-- The entry of a line, if it has one. -/
def perfMapSymbol? (line : QByteArray) : Option PerfMapSymbol :=
  match line.splitOn 32 with
  | start :: length :: name :: names =>
    match QByteArray.toULongLong16 start, QByteArray.toULongLong16 length with
    | some start, some length => some { start, length, name := trimmed ([32].intercalate (name :: names)) }
    | _, _ => none
  | _ => none

/-- `operator<` of the entries. -/
def perfMapOrder (sym : PerfMapSymbol) : UInt64 := sym.start

/-- The perf map of a table, with the position in its file. -/
structure PerfMapReader where
  hasPerfMap : Bool := true
  perfMap : List PerfMapSymbol := []
  pos : Nat := 0
deriving DecidableEq, Repr

namespace PerfMapReader

/-- `PerfSymbolTable::updatePerfMap`, of what the file holds now. -/
def updatePerfMap (sorter : Sorter perfMapOrder) (r : PerfMapReader) (text : QByteArray) : PerfMapReader :=
  if !r.hasPerfMap then r
  else
    let read := (readLines (text.drop r.pos)).filterMap perfMapSymbol?
    { r with
      perfMap := if read.isEmpty then r.perfMap else sorter.sort (r.perfMap ++ read)
      pos := max r.pos text.length }

end PerfMapReader

/-! ## Lines -/

/-- A line of a perf map. -/
structure PerfMapLine where
  start : HexNumber
  length : HexNumber
  name : QByteArray
  ne : name ≠ []
  bare : Bare name
  noEnd : (10 : UInt8) ∉ name

namespace PerfMapLine

def text (line : PerfMapLine) : QByteArray := line.start.text ++ 32 :: (line.length.text ++ 32 :: line.name)

def symbol (line : PerfMapLine) : PerfMapSymbol where
  start := line.start.value
  length := line.length.value
  name := line.name

end PerfMapLine

def perfMapText (lines : List PerfMapLine) : QByteArray := unlines (lines.map PerfMapLine.text)

/-! ## What is read of a text of lines -/

theorem readLines_cons_end (text : QByteArray) : readLines (10 :: text) = [10] :: readLines text := by
  rw [readLines, if_pos rfl]

theorem readLines_line : ∀ {line : QByteArray}, (10 : UInt8) ∉ line → ∀ text,
    readLines (line ++ 10 :: text) = (line ++ [10]) :: readLines text
  | [], _, text => readLines_cons_end text
  | c :: line, h, text => by
    have hc : c ≠ 10 := fun hc => h (hc ▸ List.mem_cons_self)
    have hline := readLines_line (fun hmem : 10 ∈ line => h (List.mem_cons_of_mem c hmem)) text
    rw [List.cons_append, readLines, if_neg hc, hline]
    rfl

theorem readLines_unlines : ∀ {lines : List QByteArray}, (∀ line ∈ lines, (10 : UInt8) ∉ line) →
    readLines (unlines lines) = lines.map (· ++ [10])
  | [], _ => rfl
  | line :: lines, h => by
    rw [unlines_cons, readLines_line (h line List.mem_cons_self),
      readLines_unlines (fun l hl => h l (List.mem_cons_of_mem _ hl)), List.map_cons]

theorem trimmed_append_space {name ending : QByteArray} (hne : name ≠ []) (hbare : Bare name)
    (hending : ∀ c ∈ ending, isSpace c = true) : trimmed (name ++ ending) = name := by
  have hhead : ∀ c ∈ (name ++ ending).head?, isSpace c = false := fun c hc => by
    rw [List.head?_append_of_ne_nil _ hne] at hc
    exact hbare.head c hc
  have hlast : ∀ c ∈ name.reverse.head?, isSpace c = false := fun c hc => by
    rw [List.head?_reverse] at hc
    exact hbare.last c hc
  rw [trimmed, dropWhile_of_head hhead, List.reverse_append,
    List.dropWhile_append_of_pos (fun c hc => hending c (List.mem_reverse.1 hc)), dropWhile_of_head hlast,
    List.reverse_reverse]

/-- A line of two words and a name, which may have blanks. -/
theorem perfMapSymbol?_words {start length : QByteArray} (hstart : (32 : UInt8) ∉ start)
    (hlength : (32 : UInt8) ∉ length) (name : QByteArray) :
    perfMapSymbol? (start ++ 32 :: (length ++ 32 :: name)) =
      match QByteArray.toULongLong16 start, QByteArray.toULongLong16 length with
      | some start, some length => some { start, length, name := trimmed name }
      | _, _ => none := by
  obtain ⟨word, words, hwords⟩ := List.exists_cons_of_ne_nil (List.splitOn_ne_nil 32 name)
  have hname : [32].intercalate (name.splitOn 32) = name := List.intercalate_splitOn 32
  rw [hwords] at hname
  rw [perfMapSymbol?, List.splitOn_append_cons_self_of_not_mem hstart,
    List.splitOn_append_cons_self_of_not_mem hlength, hwords]
  dsimp only
  rw [hname]

namespace PerfMapLine

variable (line : PerfMapLine)

theorem not_mem_start : (32 : UInt8) ∉ line.start.text := line.start.not_mem (by decide)

theorem not_mem_length : (32 : UInt8) ∉ line.length.text := line.length.not_mem (by decide)

theorem not_mem_text : (10 : UInt8) ∉ line.text := by
  rw [text, List.mem_append, List.mem_cons, List.mem_append, List.mem_cons]
  rintro (h | h | h | h | h)
  · exact line.start.not_mem (by decide) h
  · cases h
  · exact line.length.not_mem (by decide) h
  · cases h
  · exact line.noEnd h

/-- **The entry of a line**, with or without what ends it. -/
theorem perfMapSymbol?_text {ending : QByteArray} (h : ∀ c ∈ ending, isSpace c = true) :
    perfMapSymbol? (line.text ++ ending) = some line.symbol := by
  have hsplit : line.text ++ ending =
      line.start.text ++ 32 :: (line.length.text ++ 32 :: (line.name ++ ending)) := by
    rw [text]
    simp only [List.append_assoc, List.cons_append]
  rw [hsplit, perfMapSymbol?_words line.not_mem_start line.not_mem_length, line.start.toULongLong16_text,
    line.length.toULongLong16_text]
  dsimp only
  rw [trimmed_append_space line.ne line.bare h, symbol]

end PerfMapLine

theorem readLines_perfMapText (lines : List PerfMapLine) :
    readLines (perfMapText lines) = lines.map (fun line => line.text ++ [10]) := by
  rw [perfMapText, readLines_unlines, List.map_map]
  · rfl
  · intro text h
    obtain ⟨line, -, rfl⟩ := List.mem_map.1 h
    exact line.not_mem_text

/-- **The entries of a text of lines.** -/
theorem filterMap_perfMapText (lines : List PerfMapLine) :
    (readLines (perfMapText lines)).filterMap perfMapSymbol? = lines.map PerfMapLine.symbol := by
  rw [readLines_perfMapText, List.filterMap_map, ← List.filterMap_eq_map]
  exact List.filterMap_congr fun line _ => line.perfMapSymbol?_text (List.forall_mem_singleton.2 rfl)

/-! ## Lookup -/

namespace PerfMapLine

/-- The symbol has the address. -/
def Has (line : PerfMapLine) (ip : UInt64) : Prop :=
  line.start.value ≤ ip ∧ ip.toNat < line.start.value.toNat + line.length.value.toNat

/-- No symbol starts nearer, at or below the address. -/
structure Nearest (lines : List PerfMapLine) (ip : UInt64) (line : PerfMapLine) : Prop where
  mem : line ∈ lines
  start_le : line.start.value ≤ ip
  greatest : ∀ l ∈ lines, l.start.value ≤ ip → l.start.value ≤ line.start.value

end PerfMapLine

/-- A symbol that has the address is found with the offset in it, if there is one. -/
def Finds (lines : List PerfMapLine) (ip : UInt64) (found : QByteArray × UInt64) : Prop :=
  (∃ line ∈ lines, line.Has ip ∧ found = (line.name, ip - line.start.value)) ∨
    (∀ line ∈ lines, ¬line.Has ip) ∧ found = ([], 0)

/-- The perf map after its text has been read once. -/
def readOnce (sorter : Sorter perfMapOrder) (text : QByteArray) : List PerfMapSymbol :=
  (PerfMapReader.updatePerfMap sorter {} text).perfMap

theorem readOnce_eq (sorter : Sorter perfMapOrder) (text : QByteArray) :
    readOnce sorter text = sorter.sort ((readLines text).filterMap perfMapSymbol?) := by
  rw [readOnce, PerfMapReader.updatePerfMap]
  dsimp only
  rw [List.drop_zero, Bool.not_true, if_neg Bool.false_ne_true, List.nil_append]
  split
  · rename_i hempty
    rw [List.isEmpty_iff.1 hempty]
    exact (List.perm_nil.1 (sorter.perm [])).symm
  · rfl

theorem mem_readOnce {sorter : Sorter perfMapOrder} {lines : List PerfMapLine} {sym : PerfMapSymbol} :
    sym ∈ readOnce sorter (perfMapText lines) ↔ ∃ line ∈ lines, line.symbol = sym := by
  rw [readOnce_eq, filterMap_perfMapText, sorter.mem_sort, List.mem_map]

theorem sorted_readOnce (sorter : Sorter perfMapOrder) (text : QByteArray) :
    (readOnce sorter text).Pairwise (KeyLE perfMapOrder) := by
  rw [readOnce_eq]
  exact sorter.sorted _

namespace PerfMapLine

variable {lines : List PerfMapLine} {line : PerfMapLine} {ip : UInt64}

/-- In 64 bits, where the symbol ends in them. -/
theorem has_iff (hfit : line.start.value.toNat + line.length.value.toNat < 2 ^ 64) :
    line.Has ip ↔ line.symbol.start ≤ ip ∧ line.symbol.start + line.symbol.length > ip := by
  have hend : (line.start.value + line.length.value).toNat = line.start.value.toNat + line.length.value.toNat := by
    rw [UInt64.toNat_add]
    exact Nat.mod_eq_of_lt hfit
  rw [Has, symbol, gt_iff_lt, UInt64.lt_iff_toNat_lt (a := ip), hend]

/-- What the entry of a line yields. -/
def found (line : PerfMapLine) (ip : UInt64) : QByteArray × UInt64 :=
  if line.symbol.start ≤ ip ∧ line.symbol.start + line.symbol.length > ip then
    (line.symbol.name, ip - line.symbol.start)
  else ([], 0)

/-- **Only a line that starts nearest is looked at.** -/
theorem symbolFromPerfMap_cases (sorter : Sorter perfMapOrder) (lines : List PerfMapLine) (ip : UInt64) :
    (∀ line ∈ lines, ¬line.start.value ≤ ip) ∧
        symbolFromPerfMap (readOnce sorter (perfMapText lines)) ip = ([], 0) ∨
      ∃ line, Nearest lines ip line ∧
        symbolFromPerfMap (readOnce sorter (perfMapText lines)) ip = line.found ip := by
  have hsorted := sorted_readOnce sorter (perfMapText lines)
  have hmem : ∀ line ∈ lines, line.symbol ∈ readOnce sorter (perfMapText lines) := fun line hline =>
    mem_readOnce.2 ⟨line, hline, rfl⟩
  rw [symbolFromPerfMap]
  cases hlast : ((readOnce sorter (perfMapText lines)).takeWhile (fun sym => sym.start ≤ ip)).getLast? with
  | none =>
    have hnone := (getLast?_takeWhile_le_eq_none_iff perfMapOrder hsorted).1 hlast
    exact .inl ⟨fun line hline => hnone _ (hmem line hline), rfl⟩
  | some sym =>
    obtain ⟨hsym, hle, hgreatest⟩ := getLast?_takeWhile_le perfMapOrder hsorted hlast
    obtain ⟨line, hline, rfl⟩ := mem_readOnce.1 hsym
    exact .inr ⟨line, ⟨hline, hle, fun l hl hl' => hgreatest _ (hmem l hl) hl'⟩, rfl⟩

/-- Any line that starts nearest may be the one. -/
theorem symbolFromPerfMap_lastTo (h : Nearest lines ip line) :
    symbolFromPerfMap (readOnce (.lastTo perfMapOrder line.symbol) (perfMapText lines)) ip = line.found ip := by
  have hlast : ((readOnce (.lastTo perfMapOrder line.symbol) (perfMapText lines)).takeWhile
      (fun sym => sym.start ≤ ip)).getLast? = some line.symbol := by
    refine (getLast?_takeWhile_le_iff perfMapOrder (sorted_readOnce _ _)).2 ⟨h.start_le, fun sym hsym hle => ?_, ?_⟩
    · obtain ⟨l, hl, rfl⟩ := mem_readOnce.1 hsym
      exact h.greatest l hl hle
    · rw [readOnce_eq, filterMap_perfMapText]
      exact Sorter.getLast?_lastTo (List.mem_map_of_mem h.mem)
  rw [symbolFromPerfMap, hlast]
  rfl

end PerfMapLine

open PerfMapLine in
/-- **Whatever `std::sort` makes of entries with one start, the symbol that has an address is found if and only if none
has it, or every one that starts nearest below it does.** -/
theorem symbolFromPerfMap_finds_iff {lines : List PerfMapLine}
    (hfit : ∀ line ∈ lines, line.start.value.toNat + line.length.value.toNat < 2 ^ 64) (ip : UInt64) :
    (∀ sorter : Sorter perfMapOrder, Finds lines ip (symbolFromPerfMap (readOnce sorter (perfMapText lines)) ip)) ↔
      (∀ line ∈ lines, ¬line.Has ip) ∨ ∀ line, Nearest lines ip line → line.Has ip := by
  constructor
  · intro h
    refine Classical.or_iff_not_imp_left.2 fun hsome line hnearest => ?_
    by_contra hhas
    have hfound := h (.lastTo perfMapOrder line.symbol)
    rw [symbolFromPerfMap_lastTo hnearest, found, if_neg fun h => hhas ((has_iff (hfit line hnearest.mem)).2 h)]
      at hfound
    rcases hfound with ⟨l, hl, -, heq⟩ | ⟨hnone, -⟩
    · exact l.ne (Prod.mk.inj heq).1.symm
    · exact hsome hnone
  · intro h sorter
    rcases symbolFromPerfMap_cases sorter lines ip with ⟨habove, heq⟩ | ⟨line, hnearest, heq⟩
    · exact .inr ⟨fun line hline hhas => habove line hline hhas.1, heq⟩
    · rw [heq, found]
      by_cases hhas : line.Has ip
      · rw [if_pos ((has_iff (hfit line hnearest.mem)).1 hhas)]
        exact .inl ⟨line, hnearest.mem, hhas, rfl⟩
      · rw [if_neg fun h => hhas ((has_iff (hfit line hnearest.mem)).2 h)]
        rcases h with hnone | hall
        · exact .inr ⟨hnone, rfl⟩
        · exact absurd (hall line hnearest) hhas

/-- A function of 0x200 bytes. -/
def outerLine : PerfMapLine where
  start := { text := QByteArray.ofString "100", ne := by decide, digits := by decide, lt := by decide }
  length := { text := QByteArray.ofString "200", ne := by decide, digits := by decide, lt := by decide }
  name := QByteArray.ofString "outer"
  ne := by decide
  bare := .of_all (by decide)
  noEnd := by decide

/-- A stub within it. -/
def innerLine : PerfMapLine where
  start := { text := QByteArray.ofString "180", ne := by decide, digits := by decide, lt := by decide }
  length := { text := QByteArray.ofString "10", ne := by decide, digits := by decide, lt := by decide }
  name := QByteArray.ofString "inner"
  ne := by decide
  bare := .of_all (by decide)
  noEnd := by decide

/-- In the inner one it is found. -/
theorem symbolFromPerfMap_finds_inner : Finds [outerLine, innerLine] 0x184
    (symbolFromPerfMap (readOnce (.stable perfMapOrder) (perfMapText [outerLine, innerLine])) 0x184) := by
  refine (symbolFromPerfMap_finds_iff ?_ 0x184).2 (.inr fun line hnearest => ?_) _
  · intro line hline
    rcases List.mem_cons.1 hline with rfl | hline
    · decide
    · rw [List.mem_singleton.1 hline]
      decide
  · rcases List.mem_cons.1 hnearest.mem with rfl | hline
    · have hle := hnearest.greatest innerLine (List.mem_cons_of_mem _ List.mem_cons_self) (by decide)
      exact absurd hle (by decide)
    · rw [List.mem_singleton.1 hline]
      exact ⟨by decide, by decide⟩

/-- Behind the inner one the outer one is not found. -/
theorem not_symbolFromPerfMap_finds : ¬∀ (sorter : Sorter perfMapOrder) (lines : List PerfMapLine),
    (∀ line ∈ lines, line.start.value.toNat + line.length.value.toNat < 2 ^ 64) → ∀ ip,
      Finds lines ip (symbolFromPerfMap (readOnce sorter (perfMapText lines)) ip) := by
  intro h
  have hfinds := h (.stable perfMapOrder) [outerLine, innerLine] (by
    intro line hline
    rcases List.mem_cons.1 hline with rfl | hline
    · decide
    · rw [List.mem_singleton.1 hline]
      decide) 0x200
  rw [readOnce_eq, filterMap_perfMapText] at hfinds
  have hnone : symbolFromPerfMap ((Sorter.stable perfMapOrder).sort ([outerLine, innerLine].map PerfMapLine.symbol))
      0x200 = ([], 0) := by decide
  rw [hnone] at hfinds
  rcases hfinds with ⟨line, -, -, heq⟩ | ⟨hno, -⟩
  · exact line.ne (Prod.mk.inj heq).1.symm
  · exact hno outerLine List.mem_cons_self ⟨by decide, by decide⟩

end PerfParser
