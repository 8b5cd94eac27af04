import Mathlib.Data.List.TakeWhile
import PerfParser.TracingLines
/-!
# HexNumbers — addresses in text

The kernel symbols and the perf maps have their addresses in hexadecimal, each in a word of its own.
-/
namespace PerfParser

open Text

/-- `toULongLong(&ok, 16)`, with a value only where it is ok; the text ends at its first zero. -/
def QByteArray.toULongLong16 (s : QByteArray) : Option UInt64 :=
  let (negative, s) := QByteArray.signed (s.takeWhile (· ≠ 0))
  if negative then none
  else
    let s := if s.take 2 = ofString "0x" ∨ s.take 2 = ofString "0X" then s.drop 2 else s
    match natural? 16 s with
    | some n => if n < 2 ^ 64 then some (UInt64.ofNat n) else none
    | none => none

/-- An address in hexadecimal digits. -/
structure HexNumber where
  text : QByteArray
  ne : text ≠ []
  digits : text.all (fun c => digitValue c < 16) = true
  lt : ofDigits 16 text < 2 ^ 64

namespace HexNumber

def value (n : HexNumber) : UInt64 := UInt64.ofNat (ofDigits 16 n.text)

theorem toNat_value (n : HexNumber) : n.value.toNat = ofDigits 16 n.text := UInt64.toNat_ofNat_of_lt' n.lt

/-- A digit is behind all that is no digit in front of the letters. -/
theorem le_of_digitValue_lt {c : UInt8} (h : digitValue c < 16) : 48 ≤ c := by
  rw [digitValue] at h
  split at h
  · rename_i hdigit
    exact of_decide_eq_true (Bool.and_eq_true _ _ ▸ hdigit).1
  · split at h
    · rename_i hletter
      exact Std.le_trans (by decide) (of_decide_eq_true (Bool.and_eq_true _ _ ▸ hletter).1)
    · split at h
      · rename_i hletter
        exact Std.le_trans (by decide) (of_decide_eq_true (Bool.and_eq_true _ _ ▸ hletter).1)
      · exact absurd h (by decide)

theorem isSpace_of_le {c : UInt8} (h : 48 ≤ c) : isSpace c = false := by
  have hlow := UInt8.le_iff_toNat_le.1 h
  change 48 ≤ c.toNat at hlow
  rw [isSpace, Bool.or_eq_false_iff, Bool.and_eq_false_iff, decide_eq_false_iff_not, decide_eq_false_iff_not]
  refine ⟨beq_false_of_ne fun hc => ?_, .inr fun hc => ?_⟩
  · rw [hc] at hlow
    exact absurd hlow (by decide)
  · have := UInt8.le_iff_toNat_le.1 hc
    change c.toNat ≤ 13 at this
    omega

theorem le_of_mem (n : HexNumber) {c : UInt8} (h : c ∈ n.text) : 48 ≤ c :=
  le_of_digitValue_lt (of_decide_eq_true (List.all_eq_true.1 n.digits c h))

theorem not_mem (n : HexNumber) {c : UInt8} (hc : ¬digitValue c < 16) : c ∉ n.text := fun h =>
  hc (of_decide_eq_true (List.all_eq_true.1 n.digits c h))

theorem isSpace_eq (n : HexNumber) {c : UInt8} (h : c ∈ n.text) : isSpace c = false := isSpace_of_le (n.le_of_mem h)

theorem signed_text (n : HexNumber) : QByteArray.signed n.text = (false, n.text) := by
  have hne : ∀ c : UInt8, ¬digitValue c < 16 → n.text.head? ≠ some c := fun c hc h =>
    n.not_mem hc (List.mem_of_head? h)
  rw [QByteArray.signed, dropWhile_of_head (fun c hc => n.isSpace_eq (List.mem_of_mem_head? hc)),
    if_neg (hne 45 (by decide)), if_neg (hne 43 (by decide))]

/-- **An address is read from its digits.** -/
theorem toULongLong16_text (n : HexNumber) : QByteArray.toULongLong16 n.text = some n.value := by
  have hzero : n.text.takeWhile (· ≠ 0) = n.text := by
    refine List.takeWhile_eq_self_iff.2 fun c hc => decide_eq_true fun h => ?_
    rw [h] at hc
    exact n.not_mem (by decide) hc
  -- the second byte of a prefix is no digit
  have hprefix : ¬(n.text.take 2 = QByteArray.ofString "0x" ∨ n.text.take 2 = QByteArray.ofString "0X") := by
    rintro (h | h)
    · have hmem : (120 : UInt8) ∈ n.text.take 2 := by rw [h]; decide
      exact n.not_mem (by decide) (List.mem_of_mem_take hmem)
    · have hmem : (88 : UInt8) ∈ n.text.take 2 := by rw [h]; decide
      exact n.not_mem (by decide) (List.mem_of_mem_take hmem)
  rw [QByteArray.toULongLong16, hzero, n.signed_text]
  dsimp only
  rw [if_neg Bool.false_ne_true, if_neg hprefix, natural?, if_pos ⟨n.ne, n.digits⟩]
  dsimp only
  rw [if_pos n.lt, value]

end HexNumber

end PerfParser
