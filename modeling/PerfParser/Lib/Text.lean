import Mathlib.Algebra.Ring.Nat
import Mathlib.Data.List.Basic
import Mathlib.Data.List.Infix
/-!
# Text — ASCII text as bytes

Text is split at single bytes and trimmed of white space, and numbers are written in decimal.  What was put together is
found again: lines in a text (`splitOn_unlines`), words in a line (`splitOn_intercalate`), a number in its digits
(`natural?_decimal`).
-/

namespace Text

/-- White space in the C locale. -/
def isSpace (c : UInt8) : Bool := c == 32 || (9 ≤ c && c ≤ 13)

/-- The text without white space at its ends. -/
def trimmed (s : List UInt8) : List UInt8 := ((s.dropWhile isSpace).reverse.dropWhile isSpace).reverse

/-- The text in lower case. -/
def toLower (s : List UInt8) : List UInt8 := s.map (fun c => if 65 ≤ c && c ≤ 90 then c + 32 else c)

/-! ## Ends -/

/-- The text neither starts nor ends with white space. -/
structure Bare (s : List UInt8) : Prop where
  head : ∀ c ∈ s.head?, isSpace c = false
  last : ∀ c ∈ s.getLast?, isSpace c = false

theorem dropWhile_of_head {s : List UInt8} (h : ∀ c ∈ s.head?, isSpace c = false) : s.dropWhile isSpace = s := by
  cases s with
  | nil => rfl
  | cons c s => rw [List.dropWhile_cons_of_neg (by rw [h c rfl]; exact Bool.false_ne_true)]

/-- **Nothing is trimmed off.** -/
theorem Bare.trimmed_eq {s : List UInt8} (h : Bare s) : trimmed s = s := by
  rw [trimmed, dropWhile_of_head h.head, dropWhile_of_head (by rw [List.head?_reverse]; exact h.last),
    List.reverse_reverse]

theorem trimmed_cons_space {c : UInt8} (hc : isSpace c = true) (s : List UInt8) : trimmed (c :: s) = trimmed s := by
  rw [trimmed, List.dropWhile_cons_of_pos hc, trimmed]

theorem Bare.of_forall {s : List UInt8} (h : ∀ c ∈ s, isSpace c = false) : Bare s where
  head c hc := h c (List.mem_of_mem_head? hc)
  last c hc := h c (List.mem_of_getLast? hc)

theorem Bare.of_all {s : List UInt8} (h : s.all (fun c => !isSpace c) = true) : Bare s :=
  Bare.of_forall fun c hc => (Bool.not_eq_true' _).mp (List.all_eq_true.1 h c hc)

/-- What is between two ends does not matter. -/
theorem Bare.append {s t : List UInt8} (hs : Bare s) (hs' : s ≠ []) (ht : Bare t) (ht' : t ≠ []) (m : List UInt8) :
    Bare (s ++ m ++ t) where
  head c hc := by
    rw [List.append_assoc, List.head?_append_of_ne_nil _ hs'] at hc
    exact hs.head c hc
  last c hc := by
    rw [List.getLast?_append_of_ne_nil _ ht'] at hc
    exact ht.last c hc

/-! ## Words -/

theorem mem_intercalate {sep c : UInt8} : ∀ {words : List (List UInt8)}, c ∈ [sep].intercalate words →
    c = sep ∨ ∃ word ∈ words, c ∈ word
  | [], h => (List.not_mem_nil h).elim
  | [word], h => .inr ⟨word, List.mem_cons_self, by rwa [List.intercalate_singleton] at h⟩
  | word :: word' :: words, h => by
    rw [List.intercalate_cons_cons, List.append_assoc, List.mem_append, List.mem_append, List.mem_singleton] at h
    rcases h with h | rfl | h
    · exact .inr ⟨word, List.mem_cons_self, h⟩
    · exact .inl rfl
    · exact (mem_intercalate h).imp_right (fun ⟨w, hw, hc⟩ => ⟨w, List.mem_cons_of_mem _ hw, hc⟩)

/-- Words between separators: the ends are those of words. -/
theorem Bare.intercalate (sep : UInt8) : ∀ {words : List (List UInt8)}, words ≠ [] →
    (∀ word ∈ words, Bare word ∧ word ≠ []) → Bare ([sep].intercalate words) ∧ [sep].intercalate words ≠ []
  | [], hne, _ => absurd rfl hne
  | [word], _, h => by
    rw [List.intercalate_singleton]
    exact h word List.mem_cons_self
  | word :: word' :: words, _, h => by
    obtain ⟨hbare, hne⟩ := h word List.mem_cons_self
    obtain ⟨hrest, hrest'⟩ := Bare.intercalate sep (List.cons_ne_nil word' words)
      (fun w hw => h w (List.mem_cons_of_mem _ hw))
    rw [List.intercalate_cons_cons]
    exact ⟨hbare.append hne hrest hrest' [sep], List.append_ne_nil_of_right_ne_nil _ hrest'⟩

/-! ## Lines -/

/-- Lines, each of them ended. -/
def unlines (lines : List (List UInt8)) : List UInt8 := lines.flatMap (fun line => line ++ [10])

@[simp] theorem unlines_nil : unlines [] = [] := rfl

theorem unlines_cons (line : List UInt8) (lines : List (List UInt8)) :
    unlines (line :: lines) = line ++ 10 :: unlines lines := by
  rw [unlines, List.flatMap_cons, List.append_assoc]
  rfl

/-- **The lines of a text, and nothing behind the last.** -/
theorem splitOn_unlines : ∀ {lines : List (List UInt8)}, (∀ line ∈ lines, (10 : UInt8) ∉ line) →
    (unlines lines).splitOn 10 = lines ++ [[]]
  | [], _ => rfl
  | line :: lines, h => by
    rw [unlines_cons, List.splitOn_append_cons_self_of_not_mem (h line List.mem_cons_self),
      splitOn_unlines (fun l hl => h l (List.mem_cons_of_mem _ hl)), List.cons_append]

/-! ## Numbers -/

/-- The value of a digit or of a letter as one; of another byte none that a base has. -/
def digitValue (c : UInt8) : Nat :=
  if 48 ≤ c && c ≤ 57 then c.toNat - 48
  else if 97 ≤ c && c ≤ 122 then c.toNat - 87
  else if 65 ≤ c && c ≤ 90 then c.toNat - 55
  else 36

def ofDigits (base : Nat) (s : List UInt8) : Nat := s.foldl (fun n c => base * n + digitValue c) 0

theorem foldl_digits (base : Nat) : ∀ (s : List UInt8) (n : Nat),
    s.foldl (fun n c => base * n + digitValue c) n = n * base ^ s.length + ofDigits base s
  | [], n => by rw [List.foldl_nil, ofDigits, List.foldl_nil, List.length_nil, Nat.pow_zero, Nat.mul_one, Nat.add_zero]
  | c :: s, n => by
    rw [ofDigits, List.foldl_cons, List.foldl_cons, foldl_digits base s, foldl_digits base s, List.length_cons,
      Nat.pow_succ', Nat.mul_zero, Nat.zero_add, Nat.add_mul, Nat.add_assoc, Nat.mul_comm base n, Nat.mul_assoc]

theorem ofDigits_append (base : Nat) (s t : List UInt8) :
    ofDigits base (s ++ t) = ofDigits base s * base ^ t.length + ofDigits base t := by
  rw [ofDigits, List.foldl_append, foldl_digits]
  rfl

/-- The number with these digits, where they are digits. -/
def natural? (base : Nat) (s : List UInt8) : Option Nat :=
  if s ≠ [] ∧ s.all (fun c => digitValue c < base) = true then some (ofDigits base s) else none

/-- A number in decimal. -/
def decimal (n : Nat) : List UInt8 := (Nat.toDigits 10 n).map (fun c => c.toNat.toUInt8)

theorem byte_of_isDigit {c : Char} (h : c.isDigit = true) :
    48 ≤ c.toNat.toUInt8 ∧ c.toNat.toUInt8 ≤ 57 ∧ c.toNat.toUInt8.toNat = c.toNat := by
  obtain ⟨hlow, hhigh⟩ := Char.isDigit_iff_toNat.1 h
  change 48 ≤ c.toNat at hlow
  change c.toNat ≤ 57 at hhigh
  have hbyte : c.toNat.toUInt8.toNat = c.toNat := by
    show (UInt8.ofNat c.toNat).toNat = c.toNat
    rw [UInt8.toNat_ofNat']
    omega
  refine ⟨?_, ?_, hbyte⟩
  · rw [UInt8.le_iff_toNat_le, hbyte]
    exact hlow
  · rw [UInt8.le_iff_toNat_le, hbyte]
    exact hhigh

theorem digitValue_of_digit {c : UInt8} (hlow : 48 ≤ c) (hhigh : c ≤ 57) : digitValue c = c.toNat - 48 := by
  rw [digitValue, if_pos (by rw [decide_eq_true hlow, decide_eq_true hhigh]; rfl)]

theorem mem_decimal {n : Nat} {c : UInt8} (h : c ∈ decimal n) : 48 ≤ c ∧ c ≤ 57 := by
  obtain ⟨d, hd, rfl⟩ := List.mem_map.1 h
  obtain ⟨hlow, hhigh, -⟩ := byte_of_isDigit (Nat.isDigit_of_mem_toDigits (by decide) (by decide) hd)
  exact ⟨hlow, hhigh⟩

theorem decimal_ne_nil (n : Nat) : decimal n ≠ [] := by
  rw [decimal, Ne, List.map_eq_nil_iff]
  exact Nat.toDigits_ne_nil

theorem ofDigits_toDigits : ∀ {l : List Char}, (∀ c ∈ l, c.isDigit = true) → ∀ n : Nat,
    (l.map (fun c => c.toNat.toUInt8)).foldl (fun n c => 10 * n + digitValue c) n = Nat.ofDigitChars 10 l n
  | [], _, _ => rfl
  | c :: l, h, n => by
    obtain ⟨hlow, hhigh, hbyte⟩ := byte_of_isDigit (h c List.mem_cons_self)
    rw [List.map_cons, List.foldl_cons, Nat.ofDigitChars_cons, digitValue_of_digit hlow hhigh, hbyte]
    exact ofDigits_toDigits (fun d hd => h d (List.mem_cons_of_mem _ hd)) _

/-- **A number is read back from its digits.** -/
theorem natural?_decimal (n : Nat) : natural? 10 (decimal n) = some n := by
  have hdigits : (decimal n).all (fun c => digitValue c < 10) = true := List.all_eq_true.2 fun c hc => by
    refine decide_eq_true ?_
    obtain ⟨hlow, hhigh⟩ := mem_decimal hc
    rw [digitValue_of_digit hlow hhigh]
    rw [UInt8.le_iff_toNat_le] at hhigh
    change c.toNat ≤ 57 at hhigh
    omega
  rw [natural?, if_pos ⟨decimal_ne_nil n, hdigits⟩, ofDigits, decimal,
    ofDigits_toDigits (fun c hc => Nat.isDigit_of_mem_toDigits (by decide) (by decide) hc), Nat.ofDigitChars_ten_toDigits]

/-- A byte that is no digit is in no number. -/
theorem not_mem_decimal {c : UInt8} (hc : ¬(48 ≤ c ∧ c ≤ 57)) (n : Nat) : c ∉ decimal n := fun h => hc (mem_decimal h)

end Text
