import PerfParser.PerfMap
/-!
# PerfMapCuts — a perf map that is read while it is written

Each reading goes on where the one before has ended, and what it finds there is read as lines of its own.  So a line that
was not complete is read in pieces, and each piece with an address and a length in front yields an entry.  The entries
are those of the complete file if and only if one piece of each line has all of it but leading zeros and its end
(`updates_complete_iff`).
-/
namespace PerfParser

open StableSort Text

/-! ## Lines in pieces -/

/-- A line in front of lines that are cut already: if it is not complete, the first of them goes on with it. -/
def joinLine (line : QByteArray) (cut : List (List QByteArray)) : List (List QByteArray) :=
  if line.getLast? = some 10 then [line] :: cut else (line :: cut.head?.getD []) :: cut.tail

/-- The lines of all pieces, each as it is cut by them. -/
def cutLines (pieces : List QByteArray) : List (List QByteArray) :=
  pieces.foldr (fun piece cut => (readLines piece).foldr joinLine cut) []

theorem readLines_ne {text line : QByteArray} (h : line ∈ readLines text) : line ≠ [] := by
  induction text generalizing line with
  | nil => exact (List.not_mem_nil h).elim
  | cons c text ih =>
    rw [readLines] at h
    split at h
    · rcases List.mem_cons.1 h with rfl | h
      · exact List.cons_ne_nil _ _
      · exact ih h
    · split at h
      · rename_i lines hlines
        rcases List.mem_cons.1 h with rfl | h
        · exact List.cons_ne_nil _ _
        · exact ih (hlines ▸ List.mem_cons_of_mem _ h)
      · rw [List.mem_singleton.1 h]
        exact List.cons_ne_nil _ _

theorem flatten_joinLine (line : QByteArray) (cut : List (List QByteArray)) :
    (joinLine line cut).flatten = line :: cut.flatten := by
  rw [joinLine]
  split
  · rfl
  · cases cut <;> rfl

theorem flatten_foldr_joinLine (cut : List (List QByteArray)) : ∀ lines : List QByteArray,
    (lines.foldr joinLine cut).flatten = lines ++ cut.flatten
  | [] => rfl
  | line :: lines => by
    rw [List.foldr_cons, flatten_joinLine, flatten_foldr_joinLine cut lines, List.cons_append]

/-- **The readings read the pieces of the lines**, in their order. -/
theorem flatten_cutLines : ∀ pieces : List QByteArray, (cutLines pieces).flatten = pieces.flatMap readLines
  | [] => rfl
  | piece :: pieces => by
    have ih := flatten_cutLines pieces
    rw [cutLines] at ih ⊢
    rw [List.foldr_cons, flatten_foldr_joinLine, ih, List.flatMap_cons]

theorem cutLines_ne {pieces line : List QByteArray} {piece : QByteArray} (hline : line ∈ cutLines pieces)
    (h : piece ∈ line) : piece ≠ [] := by
  have hmem : piece ∈ (cutLines pieces).flatten := List.mem_flatten.2 ⟨line, hline, h⟩
  rw [flatten_cutLines] at hmem
  obtain ⟨text, -, htext⟩ := List.mem_flatMap.1 hmem
  exact readLines_ne htext

theorem joinLine_cons (c : UInt8) {line : QByteArray} (hne : line ≠ []) (cut : List (List QByteArray)) :
    ∃ head tail, (joinLine line cut).map List.flatten = head :: tail ∧
      (joinLine (c :: line) cut).map List.flatten = (c :: head) :: tail := by
  rw [joinLine, joinLine, List.getLast?_cons_of_ne_nil hne]
  split
  · exact ⟨_, _, rfl, rfl⟩
  · exact ⟨_, _, rfl, rfl⟩

theorem map_flatten_foldr_joinLine {cut : List (List QByteArray)} {text : QByteArray}
    (hcut : cut.map List.flatten = readLines text) : ∀ piece : QByteArray,
    ((readLines piece).foldr joinLine cut).map List.flatten = readLines (piece ++ text)
  | [] => hcut
  | c :: piece => by
    have ih := map_flatten_foldr_joinLine hcut piece
    rw [List.cons_append, readLines, readLines]
    by_cases hc : c = 10
    · subst hc
      rw [if_pos rfl, if_pos rfl, List.foldr_cons, joinLine, if_pos List.getLast?_singleton, List.map_cons, ih]
      rfl
    · rw [if_neg hc, if_neg hc, ← ih]
      cases hlines : readLines piece with
      | nil =>
        have hlast : ¬[c].getLast? = some 10 := fun h => hc (Option.some.inj h)
        dsimp only
        rw [List.foldr_cons, List.foldr_nil, joinLine, if_neg hlast]
        cases cut <;> rfl
      | cons line lines =>
        have hne : line ≠ [] := readLines_ne (hlines ▸ List.mem_cons_self)
        obtain ⟨head, tail, hhead, hcons⟩ := joinLine_cons c hne (lines.foldr joinLine cut)
        dsimp only
        rw [List.foldr_cons, List.foldr_cons, hhead, hcons]

/-- **Together the pieces of the lines are the lines.** -/
theorem map_flatten_cutLines : ∀ pieces : List QByteArray,
    (cutLines pieces).map List.flatten = readLines pieces.flatten
  | [] => rfl
  | piece :: pieces => by
    have ih := map_flatten_cutLines pieces
    rw [cutLines] at ih ⊢
    rw [List.foldr_cons, map_flatten_foldr_joinLine ih, List.flatten_cons]

/-! ## A growing file -/

/-- What each reading finds behind the one before. -/
def newPieces : Nat → List QByteArray → List QByteArray
  | _, [] => []
  | pos, text :: texts => text.drop pos :: newPieces text.length texts

/-- The texts that a file has at its readings, the last of them complete. -/
structure GrowingFile where
  prefixes : List QByteArray
  text : QByteArray
  growing : (prefixes ++ [text]).IsChain (· <+: ·)

namespace GrowingFile

def texts (f : GrowingFile) : List QByteArray := f.prefixes ++ [f.text]

/-- Its lines, each as it is cut by the readings. -/
def lines (f : GrowingFile) : List (List QByteArray) := cutLines (newPieces 0 f.texts)

/-- The perf map after all readings. -/
def updates (f : GrowingFile) (sorter : Sorter perfMapOrder) : PerfMapReader :=
  f.texts.foldl (PerfMapReader.updatePerfMap sorter) {}

end GrowingFile

/-- **What the readings find is the complete file**, piece by piece. -/
theorem flatten_newPieces : ∀ {texts : List QByteArray} {text : QByteArray} {pos : Nat},
    (texts ++ [text]).IsChain (· <+: ·) → (∀ t ∈ (texts ++ [text]).head?, pos ≤ t.length) →
    (newPieces pos (texts ++ [text])).flatten = text.drop pos
  | [], text, pos, _, _ => by
    rw [List.nil_append, newPieces, newPieces, List.flatten_cons, List.flatten_nil, List.append_nil]
  | t :: texts, text, pos, h, hpos => by
    obtain ⟨hhead, htail⟩ := List.isChain_cons.1 h
    have hle : ∀ t' ∈ (texts ++ [text]).head?, t.length ≤ t'.length := fun t' ht' => (hhead t' ht').length_le
    have ih := flatten_newPieces htail hle
    have hprefix : t <+: text := by
      have := (List.isChain_iff_pairwise.1 h)
      exact (List.pairwise_cons.1 this).1 text (List.mem_append_right _ List.mem_cons_self)
    obtain ⟨rest, rfl⟩ := hprefix
    rw [List.cons_append, newPieces, List.flatten_cons, ih, List.drop_left, List.drop_append_of_le_length (hpos t rfl)]

/-- **Each reading adds the entries of what it finds.** -/
theorem updates_perm (sorter : Sorter perfMapOrder) : ∀ {texts : List QByteArray} {r : PerfMapReader},
    r.hasPerfMap = true → texts.IsChain (· <+: ·) → (∀ t ∈ texts.head?, r.pos ≤ t.length) →
    (texts.foldl (PerfMapReader.updatePerfMap sorter) r).perfMap.Perm
      (r.perfMap ++ ((newPieces r.pos texts).flatMap readLines).filterMap perfMapSymbol?)
  | [], r, _, _, _ => by
    rw [List.foldl_nil, newPieces, List.flatMap_nil, List.filterMap_nil, List.append_nil]
  | t :: texts, r, hmap, h, hpos => by
    obtain ⟨hhead, htail⟩ := List.isChain_cons.1 h
    have hupdate : (r.updatePerfMap sorter t).perfMap.Perm
        (r.perfMap ++ (readLines (t.drop r.pos)).filterMap perfMapSymbol?) := by
      rw [PerfMapReader.updatePerfMap, hmap, Bool.not_true, if_neg Bool.false_ne_true]
      dsimp only
      split
      · rename_i hempty
        rw [List.isEmpty_iff.1 hempty, List.append_nil]
      · exact sorter.perm _
    have hpos' : (r.updatePerfMap sorter t).pos = t.length := by
      rw [PerfMapReader.updatePerfMap, hmap, Bool.not_true, if_neg Bool.false_ne_true]
      exact Nat.max_eq_right (hpos t rfl)
    have hmap' : (r.updatePerfMap sorter t).hasPerfMap = true := by
      rw [PerfMapReader.updatePerfMap, hmap, Bool.not_true, if_neg Bool.false_ne_true]
    have ih := updates_perm sorter hmap' htail fun t' ht' => by
      rw [hpos']
      exact (hhead t' ht').length_le
    rw [hpos'] at ih
    rw [List.foldl_cons, newPieces, List.flatMap_cons, List.filterMap_append, ← List.append_assoc]
    exact ih.trans (hupdate.append_right _)

/-! ## What a piece yields -/

/-- The bytes that are not white space. -/
def black (s : QByteArray) : Nat := s.countP (fun c => !isSpace c)

theorem black_append (s t : QByteArray) : black (s ++ t) = black s + black t := List.countP_append

theorem black_eq_zero_iff {s : QByteArray} : black s = 0 ↔ ∀ c ∈ s, isSpace c = true := by
  rw [black, List.countP_eq_zero]
  exact forall₂_congr fun c _ => by rw [Bool.not_eq_true', Bool.not_eq_false]

theorem black_cons {c : UInt8} (h : isSpace c = false) (s : QByteArray) : black (c :: s) = black s + 1 :=
  List.countP_cons_of_pos (by rw [h]; rfl)

theorem black_dropWhile (s : QByteArray) : black (s.dropWhile isSpace) = black s := by
  have hzero : black (s.takeWhile isSpace) = 0 :=
    black_eq_zero_iff.2 fun c hc => List.all_eq_true.1 List.all_takeWhile c hc
  have hsplit := black_append (s.takeWhile isSpace) (s.dropWhile isSpace)
  rw [List.takeWhile_append_dropWhile] at hsplit
  omega

/-- Trimming takes white space only. -/
theorem black_trimmed (s : QByteArray) : black (trimmed s) = black s := by
  have hreverse : ∀ s : QByteArray, black s.reverse = black s := fun s => List.countP_reverse
  rw [trimmed, hreverse, black_dropWhile, hreverse, black_dropWhile]

/-- What is behind the first blank. -/
def afterBlank (s : QByteArray) : QByteArray := (s.dropWhile (· ≠ 32)).tail

theorem afterBlank_word {word : QByteArray} (h : (32 : UInt8) ∉ word) (s : QByteArray) :
    afterBlank (word ++ 32 :: s) = s := by
  have hpos : ∀ c ∈ word, decide (c ≠ 32) = true := fun c hc => decide_eq_true fun heq => h (heq ▸ hc)
  rw [afterBlank, List.dropWhile_append_of_pos hpos, List.dropWhile_cons_of_neg (by decide), List.tail_cons]

theorem afterBlank_of_not_mem {s : QByteArray} (h : (32 : UInt8) ∉ s) : afterBlank s = [] := by
  have hnil : s.dropWhile (· ≠ 32) = [] :=
    List.dropWhile_eq_nil_iff.2 fun c hc => decide_eq_true fun heq : c = 32 => h (heq ▸ hc)
  rw [afterBlank, hnil, List.tail_nil]

/-- A text with a blank is split at its first one. -/
theorem split_blank {s : QByteArray} (h : (32 : UInt8) ∈ s) :
    ∃ word, (32 : UInt8) ∉ word ∧ s = word ++ 32 :: afterBlank s := by
  obtain ⟨word, rest, rfl, hword⟩ := List.eq_append_cons_of_mem h
  exact ⟨word, hword, by rw [afterBlank_word hword]⟩

theorem afterBlank_append {s : QByteArray} (h : (32 : UInt8) ∈ s) (t : QByteArray) :
    afterBlank (s ++ t) = afterBlank s ++ t := by
  obtain ⟨word, hword, hs⟩ := split_blank h
  rw [hs, List.append_assoc, List.cons_append, afterBlank_word hword, afterBlank_word hword]

theorem afterBlank_append_of_not_mem {s : QByteArray} (h : (32 : UInt8) ∉ s) (t : QByteArray) :
    afterBlank (s ++ t) = afterBlank t := by
  by_cases ht : (32 : UInt8) ∈ t
  · obtain ⟨word, hword, ht'⟩ := split_blank ht
    have hmem : (32 : UInt8) ∉ s ++ word := fun hm => (List.mem_append.1 hm).elim h hword
    rw [ht', ← List.append_assoc, afterBlank_word hmem, afterBlank_word hword]
  · rw [afterBlank_of_not_mem ht, afterBlank_of_not_mem fun hm => (List.mem_append.1 hm).elim h ht]

theorem black_afterBlank (s : QByteArray) : black (afterBlank s) ≤ black s := by
  by_cases h : (32 : UInt8) ∈ s
  · obtain ⟨word, -, hs⟩ := split_blank h
    have hblack := black_append word (32 :: afterBlank s)
    have hcons : black (32 :: afterBlank s) = black (afterBlank s) := List.countP_cons_of_neg (by decide)
    rw [← hs] at hblack
    omega
  · rw [afterBlank_of_not_mem h]
    exact Nat.zero_le _

/-- What is behind two words: the name of an entry. -/
def namePart (s : QByteArray) : QByteArray := afterBlank (afterBlank s)

theorem black_namePart (s : QByteArray) : black (namePart s) ≤ black s :=
  Nat.le_trans (black_afterBlank _) (black_afterBlank _)

/-- **What two pieces have behind two words, the text of both has as well.** -/
theorem black_namePart_append (s t : QByteArray) :
    black (namePart s) + black (namePart t) ≤ black (namePart (s ++ t)) := by
  rw [namePart, namePart, namePart]
  by_cases hs : (32 : UInt8) ∈ s
  · rw [afterBlank_append hs]
    by_cases hs' : (32 : UInt8) ∈ afterBlank s
    · rw [afterBlank_append hs', black_append]
      exact Nat.add_le_add_left (black_namePart t) _
    · rw [afterBlank_append_of_not_mem hs', afterBlank_of_not_mem hs']
      exact Nat.le_trans (Nat.le_of_eq (Nat.zero_add _)) (black_afterBlank _)
  · rw [afterBlank_append_of_not_mem hs, afterBlank_of_not_mem hs]
    exact Nat.le_of_eq (Nat.zero_add _)

/-! ## The bytes of the names -/

theorem toULongLong16_space {s : QByteArray} (h : ∀ c ∈ s, isSpace c = true) : QByteArray.toULongLong16 s = none := by
  have hnil : (s.takeWhile (· ≠ 0)).dropWhile isSpace = [] :=
    List.dropWhile_eq_nil_iff.2 fun c hc => h c ((List.takeWhile_sublist _).subset hc)
  rw [QByteArray.toULongLong16, QByteArray.signed, hnil]
  rfl

theorem perfMapSymbol?_of_not_mem {piece : QByteArray} (h : (32 : UInt8) ∉ piece) : perfMapSymbol? piece = none := by
  rw [perfMapSymbol?, List.splitOn_eq_singleton h]

/-- Two words are no entry. -/
theorem perfMapSymbol?_word {word word' : QByteArray} (h : (32 : UInt8) ∉ word) (h' : (32 : UInt8) ∉ word') :
    perfMapSymbol? (word ++ 32 :: word') = none := by
  rw [perfMapSymbol?, List.splitOn_append_cons_self_of_not_mem h, List.splitOn_eq_singleton h']

theorem perfMapSymbol?_blank (piece : QByteArray) : perfMapSymbol? (32 :: piece) = none := by
  have hnil : (32 : UInt8) ∉ ([] : QByteArray) := List.not_mem_nil
  by_cases h : (32 : UInt8) ∈ piece
  · obtain ⟨word, hword, hpiece⟩ := split_blank h
    have hwords := perfMapSymbol?_words hnil hword (afterBlank piece)
    rw [List.nil_append, ← hpiece, toULongLong16_space fun _ hc => (List.not_mem_nil hc).elim] at hwords
    exact hwords
  · exact perfMapSymbol?_word hnil h

/-- **An entry has the name behind two words**, and a number for its first. -/
theorem perfMapSymbol?_eq_some {piece : QByteArray} {sym : PerfMapSymbol} (h : perfMapSymbol? piece = some sym) :
    black sym.name = black (namePart piece) ∧ black (namePart piece) < black piece := by
  by_cases hblank : (32 : UInt8) ∈ piece
  · obtain ⟨start, hstart, hpiece⟩ := split_blank hblank
    by_cases hblank' : (32 : UInt8) ∈ afterBlank piece
    · obtain ⟨length, hlength, hrest⟩ := split_blank hblank'
      have hname : namePart piece = afterBlank (afterBlank piece) := rfl
      rw [← hname] at hrest
      have hblack := black_append start (32 :: afterBlank piece)
      have hcons : black (32 :: afterBlank piece) = black (afterBlank piece) := List.countP_cons_of_neg (by decide)
      have hle := black_afterBlank (afterBlank piece)
      rw [← hpiece] at hblack
      rw [hpiece, hrest, perfMapSymbol?_words hstart hlength] at h
      cases hnumber : QByteArray.toULongLong16 start with
      | none =>
        rw [hnumber] at h
        cases h
      | some n =>
        have hpos : black start ≠ 0 := fun hzero => by
          rw [toULongLong16_space (black_eq_zero_iff.1 hzero)] at hnumber
          cases hnumber
        rw [hnumber] at h
        cases hlen : QByteArray.toULongLong16 length with
        | none =>
          rw [hlen] at h
          cases h
        | some m =>
          rw [hlen] at h
          rw [← Option.some.inj h]
          refine ⟨black_trimmed _, ?_⟩
          rw [hname]
          omega
    · rw [hpiece, perfMapSymbol?_word hstart hblank'] at h
      cases h
  · rw [perfMapSymbol?_of_not_mem hblank] at h
    cases h

/-- The entries that pieces yield. -/
def entries (pieces : List QByteArray) : List PerfMapSymbol := pieces.filterMap perfMapSymbol?

theorem entries_append (pieces pieces' : List QByteArray) :
    entries (pieces ++ pieces') = entries pieces ++ entries pieces' := List.filterMap_append

/-- What they have of something. -/
def weight (w : PerfMapSymbol → Nat) (pieces : List QByteArray) : Nat := ((entries pieces).map w).sum

theorem weight_append (w : PerfMapSymbol → Nat) (pieces pieces' : List QByteArray) :
    weight w (pieces ++ pieces') = weight w pieces + weight w pieces' := by
  rw [weight, entries_append, List.map_append, List.sum_append, weight, weight]

/-- The bytes of the names that pieces yield. -/
def nameBytes (pieces : List QByteArray) : Nat := weight (fun sym => black sym.name) pieces

theorem nameBytes_none {piece : QByteArray} (h : perfMapSymbol? piece = none) (pieces : List QByteArray) :
    nameBytes (piece :: pieces) = nameBytes pieces := by
  rw [nameBytes, weight, entries, List.filterMap_cons_none h]
  rfl

theorem nameBytes_some {piece : QByteArray} {sym : PerfMapSymbol} (h : perfMapSymbol? piece = some sym)
    (pieces : List QByteArray) : nameBytes (piece :: pieces) = black sym.name + nameBytes pieces := by
  rw [nameBytes, weight, entries, List.filterMap_cons_some h, List.map_cons, List.sum_cons]
  rfl

/-- The names of pieces have no more bytes than the name of their text. -/
theorem nameBytes_le : ∀ pieces : List QByteArray, nameBytes pieces ≤ black (namePart pieces.flatten)
  | [] => Nat.le_refl 0
  | piece :: pieces => by
    have ih := nameBytes_le pieces
    have happend := black_namePart_append piece pieces.flatten
    rw [List.flatten_cons]
    cases h : perfMapSymbol? piece with
    | none =>
      rw [nameBytes_none h]
      omega
    | some sym =>
      rw [nameBytes_some h, (perfMapSymbol?_eq_some h).1]
      omega

/-- **Where no byte is lost there are only blanks.** -/
theorem nameBytes_lt : ∀ pieces : List QByteArray,
    nameBytes pieces ≤ black pieces.flatten ∧ (nameBytes pieces = black pieces.flatten → black pieces.flatten = 0)
  | [] => ⟨Nat.le_refl 0, fun _ => rfl⟩
  | piece :: pieces => by
    obtain ⟨hle, hzero⟩ := nameBytes_lt pieces
    rw [List.flatten_cons, black_append]
    cases h : perfMapSymbol? piece with
    | none =>
      rw [nameBytes_none h]
      exact ⟨by omega, fun heq => by have := hzero (by omega); omega⟩
    | some sym =>
      obtain ⟨hname, hlt⟩ := perfMapSymbol?_eq_some h
      rw [nameBytes_some h, hname]
      exact ⟨by omega, fun heq => by omega⟩

/-! ## A line in pieces -/

namespace HexNumber

/-- A number without its first digits. -/
def suffix (n : HexNumber) {front digits : QByteArray} (h : n.text = front ++ digits) (hne : digits ≠ []) :
    HexNumber where
  text := digits
  ne := hne
  digits := List.all_eq_true.2 fun c hc =>
    List.all_eq_true.1 n.digits c (h ▸ List.mem_append_right front hc)
  lt := by
    have hsplit := ofDigits_append 16 front digits
    have hlt := n.lt
    rw [h, hsplit] at hlt
    omega

theorem digitValue_eq_zero_iff {c : UInt8} : digitValue c = 0 ↔ c = 48 := by
  constructor
  · intro h
    rw [digitValue] at h
    split at h
    · rename_i hdigit
      have hlow := UInt8.le_iff_toNat_le.1 (of_decide_eq_true (Bool.and_eq_true _ _ ▸ hdigit).1)
      change 48 ≤ c.toNat at hlow
      exact UInt8.toNat_inj.1 (by change c.toNat = 48; omega)
    · split at h
      · rename_i hletter
        have hlow := UInt8.le_iff_toNat_le.1 (of_decide_eq_true (Bool.and_eq_true _ _ ▸ hletter).1)
        change 97 ≤ c.toNat at hlow
        omega
      · split at h
        · rename_i hletter
          have hlow := UInt8.le_iff_toNat_le.1 (of_decide_eq_true (Bool.and_eq_true _ _ ▸ hletter).1)
          change 65 ≤ c.toNat at hlow
          omega
        · cases h
  · rintro rfl
    rfl

theorem ofDigits_eq_zero_iff : ∀ {s : QByteArray}, ofDigits 16 s = 0 ↔ ∀ c ∈ s, c = 48
  | [] => iff_of_true rfl fun _ hc => (List.not_mem_nil hc).elim
  | c :: s => by
    have hcons := ofDigits_append 16 [c] s
    have hpow : 16 ^ s.length ≠ 0 := Nat.ne_of_gt (Nat.pow_pos (by decide))
    have hdigit : ofDigits 16 [c] = digitValue c := by
      rw [ofDigits, List.foldl_cons, List.foldl_nil, Nat.mul_zero, Nat.zero_add]
    rw [List.singleton_append] at hcons
    rw [List.forall_mem_cons, hcons, Nat.add_eq_zero_iff, ofDigits_eq_zero_iff, hdigit, ← digitValue_eq_zero_iff,
      Nat.mul_eq_zero, or_iff_left hpow]

/-- **It is the same number if and only if these are zeros**, and else a smaller one. -/
theorem value_suffix {n m : HexNumber} {front : QByteArray} (h : n.text = front ++ m.text) :
    m.value.toNat ≤ n.value.toNat ∧ (m.value = n.value ↔ ∀ c ∈ front, c = 48) := by
  have hsplit := ofDigits_append 16 front m.text
  have hpow : 0 < 16 ^ m.text.length := Nat.pow_pos (by decide)
  rw [← UInt64.toNat_inj, n.toNat_value, m.toNat_value, h, hsplit, ← ofDigits_eq_zero_iff]
  refine ⟨Nat.le_add_left _ _, ?_⟩
  constructor
  · intro heq
    have : ofDigits 16 front * 16 ^ m.text.length = 0 := by omega
    exact (Nat.mul_eq_zero.1 this).resolve_right (Nat.ne_of_gt hpow)
  · intro heq
    rw [heq, Nat.zero_mul, Nat.zero_add]

end HexNumber

namespace PerfMapLine

variable (line : PerfMapLine)

/-- What is behind the start. -/
def rest : QByteArray := line.length.text ++ 32 :: (line.name ++ [10])

theorem text_end : line.text ++ [10] = line.start.text ++ 32 :: line.rest := by
  rw [text, rest]
  simp only [List.append_assoc, List.cons_append]

theorem exists_name_eq_cons : ∃ c name, line.name = c :: name ∧ isSpace c = false := by
  obtain ⟨c, name, hname⟩ := List.exists_cons_of_ne_nil line.ne
  exact ⟨c, name, hname, line.bare.head c (by rw [hname]; rfl)⟩

/-- **What starts behind the start has less of the name.** -/
theorem black_namePart_lt {front back : QByteArray} (h : front ++ back = line.rest) :
    black (namePart back) < black line.name := by
  obtain ⟨c, name, hname, hc⟩ := line.exists_name_eq_cons
  have hne : (32 : UInt8) ∉ [c] := fun hmem => by
    rw [← List.mem_singleton.1 hmem] at hc
    cases hc
  have hrest : namePart line.rest = afterBlank (name ++ [10]) := by
    rw [namePart, rest, afterBlank_word line.not_mem_length, hname]
    exact afterBlank_append_of_not_mem hne (name ++ [10])
  have happend := black_namePart_append front back
  have hle := black_afterBlank (name ++ [10])
  rw [black_append, show black [10] = 0 from rfl] at hle
  rw [h, hrest] at happend
  rw [hname, black_cons hc]
  omega

/-- A line that is cut behind its start, which ends with it. -/
theorem nameBytes_lt_of_blank {pieces : List QByteArray} (hne : ∀ piece ∈ pieces, piece ≠ [])
    (h : pieces.flatten = 32 :: line.rest) : nameBytes pieces < black line.name := by
  cases pieces with
  | nil => cases h
  | cons piece pieces =>
    obtain ⟨c, piece', rfl⟩ := List.exists_cons_of_ne_nil (hne piece List.mem_cons_self)
    rw [List.flatten_cons, List.cons_append] at h
    obtain ⟨rfl, hrest⟩ := List.cons.inj h
    rw [nameBytes_none (perfMapSymbol?_blank piece')]
    exact Nat.lt_of_le_of_lt (nameBytes_le pieces) (line.black_namePart_lt hrest)

/-- One piece has all from a digit of the start on to the end of the name, with `line'` the line it is read as. -/
def Keeps (line' : PerfMapLine) (pieces : List QByteArray) : Prop :=
  ∃ front back ending, pieces = front ++ (line'.text ++ ending) :: back ∧
    line.start.text = front.flatten ++ line'.start.text ∧ line'.length = line.length ∧ line'.name = line.name ∧
    ending ++ back.flatten = [10]

variable {line} {line' : PerfMapLine}

/-- **It is the only one that yields an entry.** -/
theorem Keeps.entries_eq {pieces : List QByteArray} (h : line.Keeps line' pieces) : entries pieces = [line'.symbol] := by
  obtain ⟨front, back, ending, rfl, hstart, -, -, hending⟩ := h
  have hnone : ∀ pieces : List QByteArray, (32 : UInt8) ∉ pieces.flatten → entries pieces = [] := fun pieces hpieces =>
    List.filterMap_eq_nil_iff.2 fun piece hpiece =>
      perfMapSymbol?_of_not_mem fun hmem => hpieces (List.mem_flatten.2 ⟨piece, hpiece, hmem⟩)
  have hfront : (32 : UInt8) ∉ front.flatten := fun hmem =>
    line.not_mem_start (hstart ▸ List.mem_append_left _ hmem)
  have hback : (32 : UInt8) ∉ back.flatten := fun hmem => by
    have hmem' : (32 : UInt8) ∈ ending ++ back.flatten := List.mem_append_right _ hmem
    rw [hending] at hmem'
    cases List.mem_singleton.1 hmem'
  have hspace : ∀ c ∈ ending, isSpace c = true := fun c hc => by
    have hmem : c ∈ ending ++ back.flatten := List.mem_append_left _ hc
    rw [hending] at hmem
    rw [List.mem_singleton.1 hmem]
    rfl
  have hmain : entries ((line'.text ++ ending) :: back) = line'.symbol :: entries back :=
    List.filterMap_cons_some (line'.perfMapSymbol?_text hspace)
  rw [entries_append, hnone front hfront, hmain, hnone back hback, List.nil_append]

theorem entries_text (line : PerfMapLine) : entries [line.text ++ [10]] = [line.symbol] :=
  List.filterMap_cons_some (line.perfMapSymbol?_text (List.forall_mem_singleton.2 rfl))

theorem weight_text (w : PerfMapSymbol → Nat) (line : PerfMapLine) : weight w [line.text ++ [10]] = w line.symbol := by
  rw [weight, entries_text, List.map_singleton, List.sum_singleton]

theorem Keeps.weight_eq (w : PerfMapSymbol → Nat) {pieces : List QByteArray} (h : line.Keeps line' pieces) :
    weight w pieces = w line'.symbol := by
  rw [weight, h.entries_eq, List.map_singleton, List.sum_singleton]

/-- It has the name and the length of the line, and no later start. -/
theorem Keeps.symbol_eq {pieces : List QByteArray} (h : line.Keeps line' pieces) :
    line'.symbol = { line.symbol with start := line'.start.value } ∧
      line'.start.value.toNat ≤ line.start.value.toNat := by
  obtain ⟨front, back, ending, -, hstart, hlength, hname, -⟩ := h
  exact ⟨by rw [symbol, symbol, hlength, hname], (HexNumber.value_suffix hstart).1⟩

/-- A piece more of the digits in front. -/
theorem Keeps.cons {piece : QByteArray} {digits : HexNumber} {pieces : List QByteArray}
    (hstart : line.start.text = piece ++ digits.text) (h : Keeps { line with start := digits } line' pieces) :
    line.Keeps line' (piece :: pieces) := by
  obtain ⟨front, back, ending, rfl, hfront, hlength, hname, hending⟩ := h
  refine ⟨piece :: front, back, ending, rfl, ?_, hlength, hname, hending⟩
  rw [hstart, List.flatten_cons, List.append_assoc]
  exact congrArg (piece ++ ·) hfront

/-- A piece with both numbers and something behind them has all of the name, or bytes of it are lost. -/
theorem keeps_or_lt_of_numbers {name : QByteArray} {pieces : List QByteArray}
    (h : line.name ++ [10] = name ++ pieces.flatten) :
    nameBytes ((line.start.text ++ 32 :: (line.length.text ++ 32 :: name)) :: pieces) < black line.name ∨
      line.Keeps line ((line.start.text ++ 32 :: (line.length.text ++ 32 :: name)) :: pieces) := by
  have hyield := perfMapSymbol?_words line.not_mem_start line.not_mem_length name
  rw [line.start.toULongLong16_text, line.length.toULongLong16_text] at hyield
  obtain ⟨hle, hzero⟩ := nameBytes_lt pieces
  have hblack := congrArg black h
  rw [black_append, black_append, show black [10] = 0 from rfl] at hblack
  rw [nameBytes_some hyield, black_trimmed]
  by_cases hlost : nameBytes pieces < black pieces.flatten
  · exact .inl (by omega)
  · have hspace := black_eq_zero_iff.1 (hzero (Nat.le_antisymm hle (Nat.not_lt.1 hlost)))
    rcases List.append_eq_append_iff.1 h with ⟨ending, rfl, hending⟩ | ⟨lost, hname, hlost⟩
    · refine .inr ⟨[], pieces, ending, ?_, rfl, rfl, rfl, hending.symm⟩
      rw [List.nil_append, text]
      simp only [List.append_assoc, List.cons_append]
    · -- what is lost of the name would be white space at its end
      have hnil : lost = [] := by
        by_contra hne
        have hlast := line.bare.last (lost.getLast hne) (by
          rw [hname, List.getLast?_append_of_ne_nil _ hne, List.getLast?_eq_some_getLast hne]
          rfl)
        rw [hspace _ (hlost ▸ List.mem_append_left _ (List.getLast_mem hne))] at hlast
        cases hlast
      subst hnil
      rw [List.append_nil] at hname
      refine .inr ⟨[], pieces, [], ?_, rfl, rfl, rfl, hlost⟩
      rw [List.nil_append, List.append_nil, text, hname]

/-- **One piece has all of a line but digits in front and its end, or the pieces yield less of the name.** -/
theorem keeps_or_lt : ∀ {pieces : List QByteArray} {line : PerfMapLine}, (∀ piece ∈ pieces, piece ≠ []) →
    pieces.flatten = line.text ++ [10] → nameBytes pieces < black line.name ∨ ∃ line', line.Keeps line' pieces
  | [], line, _, h => by
    rw [text_end] at h
    exact absurd h.symm (List.append_ne_nil_of_right_ne_nil _ (List.cons_ne_nil _ _))
  | piece :: pieces, line, hne, h => by
    have hne' : ∀ piece ∈ pieces, piece ≠ [] := fun p hp => hne p (List.mem_cons_of_mem _ hp)
    rw [List.flatten_cons, text_end] at h
    rcases List.append_eq_append_iff.1 h with ⟨digits, hstart, hrest⟩ | ⟨behind, rfl, hrest⟩
    · have hblank : (32 : UInt8) ∉ piece := fun hmem => line.not_mem_start (hstart ▸ List.mem_append_left _ hmem)
      rw [nameBytes_none (perfMapSymbol?_of_not_mem hblank)]
      by_cases hdigits : digits = []
      · rw [hdigits, List.nil_append] at hrest
        exact .inl (line.nameBytes_lt_of_blank hne' hrest)
      · have htext := text_end { line with start := line.start.suffix hstart hdigits }
        have ih := keeps_or_lt hne' (hrest.trans htext.symm)
        exact ih.imp_right fun ⟨line', hkeeps⟩ => ⟨line', hkeeps.cons hstart⟩
    · cases behind with
      | nil =>
        rw [List.append_nil, nameBytes_none (perfMapSymbol?_of_not_mem line.not_mem_start)]
        exact .inl (line.nameBytes_lt_of_blank hne' hrest.symm)
      | cons c behind =>
        rw [List.cons_append] at hrest
        obtain ⟨rfl, hbehind⟩ := List.cons.inj hrest
        -- a piece that ends in or right behind the length has two words
        have htwo : (32 : UInt8) ∉ behind → nameBytes ((line.start.text ++ 32 :: behind) :: pieces) <
            black line.name := fun hword => by
          rw [nameBytes_none (perfMapSymbol?_word line.not_mem_start hword)]
          exact Nat.lt_of_le_of_lt (nameBytes_le pieces) (line.black_namePart_lt hbehind.symm)
        rcases List.append_eq_append_iff.1 hbehind with ⟨name, rfl, hname⟩ | ⟨digits, hlength, -⟩
        · cases name with
          | nil => exact .inl (htwo (by rw [List.append_nil]; exact line.not_mem_length))
          | cons c name =>
            rw [List.cons_append] at hname
            obtain ⟨rfl, hname'⟩ := List.cons.inj hname
            exact (keeps_or_lt_of_numbers hname').imp_right fun hkeeps => ⟨line, hkeeps⟩
        · exact .inl (htwo fun hmem => line.not_mem_length (hlength ▸ List.mem_append_left _ hmem))

/-! ## Lines that are read as they are -/

/-- One piece has all of a line but zeros in front of its start and what ends it. -/
def Whole (pieces : List QByteArray) : Prop :=
  ∃ front main back, pieces = front ++ main :: back ∧ (∀ c ∈ front.flatten, c = 48) ∧
    (∀ c ∈ back.flatten, isSpace c = true) ∧ ∃ c ∈ main.head?, c ≠ 32

theorem Keeps.whole {pieces : List QByteArray} (h : line.Keeps line' pieces)
    (hstart : line'.start.value = line.start.value) : Whole pieces := by
  obtain ⟨front, back, ending, rfl, hfront, -, -, hending⟩ := h
  obtain ⟨c, digits, hdigits⟩ := List.exists_cons_of_ne_nil line'.start.ne
  refine ⟨front, _, back, rfl, (HexNumber.value_suffix hfront).2.1 hstart, fun c hc => ?_, c, ?_, fun hblank => ?_⟩
  · have hmem : c ∈ ending ++ back.flatten := List.mem_append_right _ hc
    rw [hending] at hmem
    rw [List.mem_singleton.1 hmem]
    rfl
  · rw [text, hdigits]
    rfl
  · exact line'.not_mem_start (by rw [hdigits, hblank]; exact List.mem_cons_self)

/-- The text of a line from a digit on, before white space. -/
theorem eq_text_append (line : PerfMapLine) {main back : QByteArray} (hback : ∀ c ∈ back, isSpace c = true)
    (h : main ++ back = line.text ++ [10]) : ∃ ending, main = line.text ++ ending ∧ ending ++ back = [10] := by
  rcases List.append_eq_append_iff.1 h with ⟨lost, htext, hlost⟩ | ⟨ending, hmain, hending⟩
  · have hnil : lost = [] := by
      by_contra hne
      have hlast : (line.name.getLast line.ne) ∈ back := by
        have htextlast : line.text.getLast? = some (line.name.getLast line.ne) := by
          rw [text, List.getLast?_append_of_ne_nil _ (List.cons_ne_nil _ _), List.getLast?_cons_of_ne_nil
            (List.append_ne_nil_of_right_ne_nil _ (List.cons_ne_nil _ _)),
            List.getLast?_append_of_ne_nil _ (List.cons_ne_nil _ _), List.getLast?_cons_of_ne_nil line.ne,
            List.getLast?_eq_some_getLast line.ne]
        rw [htext, List.getLast?_append_of_ne_nil _ hne] at htextlast
        exact hlost ▸ List.mem_append_left _ (List.mem_of_getLast? htextlast)
      have hspace := line.bare.last _ (List.getLast?_eq_some_getLast line.ne)
      rw [hback _ hlast] at hspace
      cases hspace
    subst hnil
    exact ⟨[], by rw [htext, List.append_nil, List.append_nil], hlost⟩
  · exact ⟨ending, hmain, hending.symm⟩

theorem Whole.keeps {pieces : List QByteArray} (h : Whole pieces) (htext : pieces.flatten = line.text ++ [10]) :
    ∃ line', line.Keeps line' pieces ∧ line'.start.value = line.start.value := by
  obtain ⟨front, main, back, rfl, hfront, hback, c, hc, hblank⟩ := h
  rw [List.flatten_append, List.flatten_cons, text_end] at htext
  -- a piece that starts with a blank is not whole
  have hmain : ∀ rest, main ++ back.flatten ≠ 32 :: rest := fun rest hrest => by
    cases main with
    | nil => cases hc
    | cons d main =>
      rw [← Option.some.inj hc] at hblank
      exact hblank (List.cons.inj hrest).1
  rcases List.append_eq_append_iff.1 htext with ⟨digits, hstart, hrest⟩ | ⟨behind, hzeros, hrest⟩
  · have hdigits : digits ≠ [] := fun hnil => hmain line.rest (by rw [hrest, hnil, List.nil_append])
    obtain ⟨ending, hmain, hending⟩ := eq_text_append { line with start := line.start.suffix hstart hdigits } hback
      (hrest.trans (text_end { line with start := line.start.suffix hstart hdigits }).symm)
    refine ⟨{ line with start := line.start.suffix hstart hdigits },
      ⟨front, back, ending, by rw [hmain], hstart, rfl, rfl, hending⟩, ?_⟩
    exact (HexNumber.value_suffix (m := line.start.suffix hstart hdigits) hstart).2.2 hfront
  · cases behind with
    | nil => exact absurd hrest.symm (hmain line.rest)
    | cons d behind =>
      rw [List.cons_append] at hrest
      have hd := hfront d (hzeros ▸ List.mem_append_right _ List.mem_cons_self)
      rw [← (List.cons.inj hrest).1] at hd
      cases hd

end PerfMapLine

/-! ## All readings -/

/-- **Where no line yields more in pieces, and all of them yield as much, each yields as much.** -/
theorem weight_eq_of_le (w : PerfMapSymbol → Nat) : ∀ {lines : List (List QByteArray)},
    (∀ pieces ∈ lines, weight w pieces ≤ weight w [pieces.flatten]) →
      weight w lines.flatten ≤ weight w (lines.map List.flatten) ∧
        (weight w lines.flatten = weight w (lines.map List.flatten) →
          ∀ pieces ∈ lines, weight w pieces = weight w [pieces.flatten])
  | [], _ => ⟨Nat.le_refl _, fun _ _ h => (List.not_mem_nil h).elim⟩
  | pieces :: lines, h => by
    have hle := h pieces List.mem_cons_self
    obtain ⟨hle', heq'⟩ := weight_eq_of_le w fun p hp => h p (List.mem_cons_of_mem pieces hp)
    rw [List.flatten_cons, List.map_cons, weight_append, ← List.singleton_append, weight_append]
    refine ⟨Nat.add_le_add hle hle', fun heq => List.forall_mem_cons.2 ⟨by omega, heq' (by omega)⟩⟩

/-- Lines that yield the same in pieces. -/
theorem entries_flatten_eq : ∀ {lines : List (List QByteArray)},
    (∀ pieces ∈ lines, entries pieces = entries [pieces.flatten]) →
    entries lines.flatten = entries (lines.map List.flatten)
  | [], _ => rfl
  | pieces :: lines, h => by
    rw [List.flatten_cons, List.map_cons, entries_append, h pieces List.mem_cons_self,
      entries_flatten_eq fun p hp => h p (List.mem_cons_of_mem pieces hp), ← entries_append, List.singleton_append]

theorem entries_of_length_lt {pieces : List QByteArray} (h : pieces.length < 2) :
    entries pieces = entries [pieces.flatten] := by
  match pieces, h with
  | [], _ => exact (List.filterMap_cons_none (perfMapSymbol?_of_not_mem List.not_mem_nil)).symm
  | [piece], _ => rw [List.flatten_singleton]

namespace GrowingFile

variable (f : GrowingFile)

/-- The lines that are cut. -/
def cut : List (List QByteArray) := f.lines.filter (fun pieces => 2 ≤ pieces.length)

theorem map_flatten_lines : f.lines.map List.flatten = readLines f.text := by
  rw [lines, texts, map_flatten_cutLines, flatten_newPieces f.growing fun _ _ => Nat.zero_le _, List.drop_zero]

/-- The perf map has the entries of the pieces, and the one that is read once those of the lines. -/
theorem perm_iff (sorter : Sorter perfMapOrder) : (f.updates sorter).perfMap.Perm (readOnce sorter f.text) ↔
    (entries f.lines.flatten).Perm (entries (f.lines.map List.flatten)) := by
  have hupdates := updates_perm sorter (r := {}) rfl f.growing fun _ _ => Nat.zero_le _
  rw [← flatten_cutLines, List.nil_append] at hupdates
  have hcomplete := sorter.perm ((readLines f.text).filterMap perfMapSymbol?)
  rw [map_flatten_lines, readOnce_eq]
  exact ⟨fun h => hupdates.symm.trans (h.trans hcomplete), fun h => hupdates.trans (h.trans hcomplete.symm)⟩

/-- Only the lines that are cut matter. -/
theorem perm_cut_iff : (entries f.lines.flatten).Perm (entries (f.lines.map List.flatten)) ↔
    (entries f.cut.flatten).Perm (entries (f.cut.map List.flatten)) := by
  have hsplit := List.filter_append_perm (fun pieces : List QByteArray => decide (2 ≤ pieces.length)) f.lines
  have hwhole : entries (f.lines.filter (fun pieces => !decide (2 ≤ pieces.length))).flatten =
      entries ((f.lines.filter (fun pieces => !decide (2 ≤ pieces.length))).map List.flatten) :=
    entries_flatten_eq fun pieces hpieces => by
      have hlength := (List.mem_filter.1 hpieces).2
      rw [Bool.not_eq_true', decide_eq_false_iff_not, Nat.not_le] at hlength
      exact entries_of_length_lt hlength
  have hpieces := hsplit.flatten.filterMap perfMapSymbol?
  have hlines := (hsplit.map List.flatten).filterMap perfMapSymbol?
  rw [List.flatten_append, List.filterMap_append] at hpieces
  rw [List.map_append, List.filterMap_append] at hlines
  rw [entries, entries] at hwhole
  rw [← hwhole] at hlines
  exact ⟨fun h => (List.perm_append_right_iff _).1 (hpieces.trans (h.trans hlines.symm)),
    fun h => hpieces.symm.trans ((h.append_right _).trans hlines)⟩

/-- The lines of a perf map, as they are cut. -/
theorem exists_line {lines : List PerfMapLine} (htext : f.text = perfMapText lines) {pieces : List QByteArray}
    (h : pieces ∈ f.lines) : ∃ line : PerfMapLine, pieces.flatten = line.text ++ [10] := by
  have hmem : pieces.flatten ∈ f.lines.map List.flatten := List.mem_map_of_mem h
  rw [f.map_flatten_lines, htext, readLines_perfMapText] at hmem
  obtain ⟨line, -, hline⟩ := List.mem_map.1 hmem
  exact ⟨line, hline.symm⟩

/-- **If the pieces of the lines yield what the lines do, then each line is read as it is.** -/
theorem whole_of_perm {lines : List PerfMapLine} (htext : f.text = perfMapText lines)
    (h : (entries f.lines.flatten).Perm (entries (f.lines.map List.flatten))) :
    ∀ pieces ∈ f.lines, PerfMapLine.Whole pieces := by
  have hsum : ∀ w : PerfMapSymbol → Nat, weight w f.lines.flatten = weight w (f.lines.map List.flatten) := fun w =>
    (h.map w).sum_nat
  have hcut : ∀ pieces ∈ f.lines, ∀ line : PerfMapLine, pieces.flatten = line.text ++ [10] →
      nameBytes pieces < black line.name ∨ ∃ line', line.Keeps line' pieces := fun pieces hpieces line hline =>
    PerfMapLine.keeps_or_lt (fun piece => cutLines_ne hpieces) hline
  -- no byte of a name is lost
  have hnames : ∀ pieces ∈ f.lines, nameBytes pieces = nameBytes [pieces.flatten] := by
    refine (weight_eq_of_le _ fun pieces hpieces => ?_).2 (hsum _)
    obtain ⟨line, hline⟩ := f.exists_line htext hpieces
    rw [hline, PerfMapLine.weight_text]
    rcases hcut pieces hpieces line hline with hlt | ⟨line', hkeeps⟩
    · exact Nat.le_of_lt hlt
    · rw [hkeeps.weight_eq, hkeeps.symbol_eq.1]
  have hkeeps : ∀ pieces ∈ f.lines, ∀ line : PerfMapLine, pieces.flatten = line.text ++ [10] →
      ∃ line', line.Keeps line' pieces := fun pieces hpieces line hline => by
    refine (hcut pieces hpieces line hline).resolve_left fun hlt => ?_
    rw [hnames pieces hpieces, hline, nameBytes, PerfMapLine.weight_text] at hlt
    exact Nat.lt_irrefl _ hlt
  -- and no start is less
  have hstarts : ∀ pieces ∈ f.lines,
      weight (fun sym => sym.start.toNat) pieces = weight (fun sym => sym.start.toNat) [pieces.flatten] := by
    refine (weight_eq_of_le _ fun pieces hpieces => ?_).2 (hsum _)
    obtain ⟨line, hline⟩ := f.exists_line htext hpieces
    obtain ⟨line', hkeeps⟩ := hkeeps pieces hpieces line hline
    rw [hline, PerfMapLine.weight_text, hkeeps.weight_eq]
    exact hkeeps.symbol_eq.2
  intro pieces hpieces
  obtain ⟨line, hline⟩ := f.exists_line htext hpieces
  obtain ⟨line', hkeeps⟩ := hkeeps pieces hpieces line hline
  have hstart := hstarts pieces hpieces
  rw [hline, PerfMapLine.weight_text, hkeeps.weight_eq] at hstart
  exact hkeeps.whole (UInt64.toNat_inj.1 hstart)

/-- **The readings of a growing perf map yield what one reading of the complete file yields if and only if the pieces of
the lines that are cut do; where all lines are entries, if and only if one piece of each has all of it but zeros in front
of its start and what ends it.** -/
theorem updates_complete_iff (sorter : Sorter perfMapOrder) :
    ((f.updates sorter).perfMap.Perm (readOnce sorter f.text) ↔
      (entries f.cut.flatten).Perm (entries (f.cut.map List.flatten))) ∧
    ∀ lines : List PerfMapLine, f.text = perfMapText lines →
      ((f.updates sorter).perfMap.Perm (readOnce sorter f.text) ↔ ∀ pieces ∈ f.lines, PerfMapLine.Whole pieces) := by
  refine ⟨(f.perm_iff sorter).trans f.perm_cut_iff, fun lines htext => (f.perm_iff sorter).trans ?_⟩
  refine ⟨f.whole_of_perm htext, fun h => ?_⟩
  rw [entries_flatten_eq fun pieces hpieces => ?_]
  obtain ⟨line, hline⟩ := f.exists_line htext hpieces
  obtain ⟨line', hkeeps, hstart⟩ := (h pieces hpieces).keeps hline
  rw [hkeeps.entries_eq, hline, PerfMapLine.entries_text, hkeeps.symbol_eq.1, hstart]
  rfl

/-- A file that is read when its first line is complete. -/
def linewise : GrowingFile where
  prefixes := [outerLine.text ++ [10]]
  text := perfMapText [outerLine, innerLine]
  growing := List.isChain_pair.2 (List.prefix_append _ _)

theorem updates_linewise : (linewise.updates (.stable perfMapOrder)).perfMap.Perm
    (readOnce (.stable perfMapOrder) linewise.text) := by
  refine ((linewise.updates_complete_iff (.stable perfMapOrder)).2 [outerLine, innerLine] rfl).2 fun pieces hpieces => ?_
  have hlines : linewise.lines = [[outerLine.text ++ [10]], [innerLine.text ++ [10]]] := by decide +kernel
  rw [hlines] at hpieces
  rcases List.mem_cons.1 hpieces with rfl | hpieces
  · exact ⟨[], _, [], rfl, fun _ => List.not_mem_nil.elim, fun _ => List.not_mem_nil.elim, 49, rfl, by decide⟩
  · rw [List.mem_singleton.1 hpieces]
    exact ⟨[], _, [], rfl, fun _ => List.not_mem_nil.elim, fun _ => List.not_mem_nil.elim, 49, rfl, by decide⟩

/-- A file that is read when the name of its line is half written. -/
def halfName : GrowingFile where
  prefixes := [QByteArray.ofString "100 200 out"]
  text := perfMapText [outerLine]
  growing := List.isChain_pair.2 (by decide)

/-- The symbol keeps the half of its name. -/
theorem not_updates_complete : ¬∀ (sorter : Sorter perfMapOrder) (f : GrowingFile),
    (f.updates sorter).perfMap.Perm (readOnce sorter f.text) := by
  intro h
  have hperm := h (.stable perfMapOrder) halfName
  have hhalf : (halfName.updates (.stable perfMapOrder)).perfMap =
      [{ start := 0x100, length := 0x200, name := QByteArray.ofString "out" }] := by decide +kernel
  have hcomplete : readOnce (.stable perfMapOrder) halfName.text = [outerLine.symbol] := by decide +kernel
  rw [hhalf, hcomplete, List.perm_singleton] at hperm
  exact absurd hperm (by decide)

end GrowingFile

end PerfParser
