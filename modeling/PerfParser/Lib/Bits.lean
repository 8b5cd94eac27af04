import Mathlib.Data.List.Basic
import Mathlib.Data.Nat.Bitwise
/-!
# Bits — the bits of a word, moved to other places

A loop over the bits of a word that sets another bit for each of them moves the bits along a function of their indices
(`testBit_move`); it loses nothing if and only if the function is injective (`move_injective_iff`).  A bit field is some
bits in a row, read as a number.
-/

namespace Bits

theorem toNat_one_shiftLeft {i : Nat} (hi : i < 64) : ((1 : UInt64) <<< UInt64.ofNat i).toNat = 2 ^ i := by
  have hlt : 2 ^ i < 2 ^ 64 := Nat.pow_lt_pow_right (by decide) hi
  rw [UInt64.toNat_shiftLeft, UInt64.toNat_ofNat', Nat.mod_eq_of_lt (show i < 2 ^ 64 by omega), Nat.mod_eq_of_lt hi,
    show (1 : UInt64).toNat = 1 from rfl, Nat.one_shiftLeft, Nat.mod_eq_of_lt hlt]

theorem and_one_shiftLeft_bne (v : UInt64) {i : Nat} (hi : i < 64) :
    (v &&& (1 : UInt64) <<< UInt64.ofNat i != 0) = v.toNat.testBit i := by
  have hand : (v &&& (1 : UInt64) <<< UInt64.ofNat i).toNat = (v.toNat.testBit i).toNat * 2 ^ i := by
    rw [UInt64.toNat_and, toNat_one_shiftLeft hi, Nat.and_two_pow]
  rw [Bool.eq_iff_iff, bne_iff_ne, Ne, ← UInt64.toNat_inj, hand]
  cases v.toNat.testBit i <;> simp

theorem eq_of_testBit {v w : UInt64} (h : ∀ i < 64, v.toNat.testBit i = w.toNat.testBit i) : v = w := by
  refine UInt64.toNat_inj.1 (Nat.eq_of_testBit_eq fun i => ?_)
  by_cases hi : i < 64
  · exact h i hi
  · have hpow : 2 ^ 64 ≤ 2 ^ i := Nat.pow_le_pow_right (by decide) (Nat.not_lt.1 hi)
    rw [Nat.testBit_lt_two_pow (Nat.lt_of_lt_of_le v.toNat_lt hpow),
      Nat.testBit_lt_two_pow (Nat.lt_of_lt_of_le w.toNat_lt hpow)]

/-! ## Moved bits -/

variable (f : Nat → Nat)

/-- The word with bit `i` of `v` at `f i`. -/
def move (v : UInt64) : UInt64 :=
  (List.range 64).foldl (fun w i =>
    if v &&& ((1 : UInt64) <<< UInt64.ofNat i) != 0 then w ||| ((1 : UInt64) <<< UInt64.ofNat (f i)) else w) 0

theorem testBit_foldl (v : UInt64) (j : Nat) : ∀ (l : List Nat) (w : UInt64), (∀ i ∈ l, i < 64 ∧ f i < 64) →
    ((l.foldl (fun w i => if v &&& ((1 : UInt64) <<< UInt64.ofNat i) != 0 then
        w ||| ((1 : UInt64) <<< UInt64.ofNat (f i)) else w) w).toNat.testBit j = true ↔
      w.toNat.testBit j = true ∨ ∃ i ∈ l, v.toNat.testBit i = true ∧ f i = j)
  | [], w, _ => by simp
  | i :: l, w, h => by
    obtain ⟨hi, hfi⟩ := h i List.mem_cons_self
    rw [List.foldl_cons, testBit_foldl v j l _ (fun i' hi' => h i' (List.mem_cons_of_mem i hi')),
      and_one_shiftLeft_bne v hi]
    cases hv : v.toNat.testBit i with
    | false => simp [hv]
    | true =>
      rw [if_pos rfl, UInt64.toNat_or, toNat_one_shiftLeft hfi, Nat.testBit_or, Nat.testBit_two_pow]
      simp [hv, or_assoc]

variable {f}

/-- **A bit is set where one has been moved to.** -/
theorem testBit_move (hf : ∀ i < 64, f i < 64) (v : UInt64) (j : Nat) :
    (move f v).toNat.testBit j = true ↔ ∃ i < 64, v.toNat.testBit i = true ∧ f i = j := by
  rw [move, testBit_foldl f v j _ _ (fun i hi => ⟨List.mem_range.1 hi, hf i (List.mem_range.1 hi)⟩)]
  simp

/-- What is set there is set where it came from, if nothing else could have been moved there. -/
theorem testBit_move_apply (hf : ∀ i < 64, f i < 64) (hinj : ∀ i < 64, ∀ j < 64, f i = f j → i = j) (v : UInt64) {i : Nat}
    (hi : i < 64) : (move f v).toNat.testBit (f i) = v.toNat.testBit i := by
  rw [Bool.eq_iff_iff, testBit_move hf]
  constructor
  · rintro ⟨i', hi', hv, heq⟩
    rwa [← hinj i' hi' i hi heq]
  · exact fun hv => ⟨i, hi, hv, rfl⟩

/-- **A word is told apart from all others** if and only if each of its bits is moved to a place of its own. -/
theorem move_eq_iff (hf : ∀ i < 64, f i < 64) (v : UInt64) :
    (∀ w : UInt64, move f w = move f v → w = v) ↔
      ∀ i < 64, v.toNat.testBit i = true → ∀ j < 64, f j = f i → j = i := by
  constructor
  · intro h i hi hv j hj heq
    by_contra hne
    -- the word in which `j` is the other way has a bit at that place as well
    let w : UInt64 := v ^^^ ((1 : UInt64) <<< UInt64.ofNat j)
    have hw : ∀ k, w.toNat.testBit k = (v.toNat.testBit k ^^ decide (j = k)) := fun k => by
      rw [UInt64.toNat_xor, toNat_one_shiftLeft hj, Nat.testBit_xor, Nat.testBit_two_pow]
    have hother : ∀ k, k ≠ j → w.toNat.testBit k = v.toNat.testBit k := fun k hk => by
      rw [hw, decide_eq_false (Ne.symm hk), Bool.xor_false]
    have hmove : move f w = move f v := by
      refine eq_of_testBit fun k _ => Bool.eq_iff_iff.2 ?_
      rw [testBit_move hf, testBit_move hf]
      constructor
      · rintro ⟨i', hi', hbit, rfl⟩
        by_cases hij : i' = j
        · exact ⟨i, hi, hv, by rw [hij, heq]⟩
        · exact ⟨i', hi', by rwa [← hother i' hij], rfl⟩
      · rintro ⟨i', hi', hbit, rfl⟩
        by_cases hij : i' = j
        · exact ⟨i, hi, by rwa [hother i (Ne.symm hne)], by rw [hij, heq]⟩
        · exact ⟨i', hi', by rwa [hother i' hij], rfl⟩
    have hbit := hw j
    rw [h w hmove, decide_eq_true rfl, Bool.xor_true] at hbit
    exact (Bool.eq_not_self _).1 hbit
  · intro h w hmove
    refine eq_of_testBit fun i hi => Bool.eq_iff_iff.2 ⟨fun hw => ?_, fun hv => ?_⟩
    · have hbit := (testBit_move hf w (f i)).2 ⟨i, hi, hw, rfl⟩
      rw [hmove, testBit_move hf] at hbit
      obtain ⟨i', hi', hv, heq⟩ := hbit
      rwa [h i' hi' hv i hi heq.symm]
    · have hbit := (testBit_move hf v (f i)).2 ⟨i, hi, hv, rfl⟩
      rw [← hmove, testBit_move hf] at hbit
      obtain ⟨i', hi', hw, heq⟩ := hbit
      rwa [← h i hi hv i' hi' heq]

/-- **Words are told apart if and only if the places are.** -/
theorem move_injective_iff (hf : ∀ i < 64, f i < 64) :
    (∀ v w : UInt64, move f v = move f w → v = w) ↔ ∀ i < 64, ∀ j < 64, f i = f j → i = j := by
  constructor
  · intro h i hi j hj heq
    refine (move_eq_iff hf ((1 : UInt64) <<< UInt64.ofNat j)).1 (fun w => h w _) j hj ?_ i hi heq
    rw [toNat_one_shiftLeft hj, Nat.testBit_two_pow_self]
  · exact fun h v w => (move_eq_iff hf w).2 (fun i hi _ j hj => h j hj i hi) v

/-! ## Bit fields -/

/-- The number in `width` bits, the lowest of them at `first`. -/
def field (first width : Nat) (v : UInt64) : Nat := v.toNat / 2 ^ first % 2 ^ width

theorem testBit_field (first width : Nat) (v : UInt64) (i : Nat) :
    (field first width v).testBit i = (decide (i < width) && v.toNat.testBit (first + i)) := by
  rw [field, Nat.testBit_mod_two_pow, Nat.testBit_div_two_pow, Nat.add_comm]

/-- Bit fields are the same if and only if their bits are. -/
theorem field_eq_iff {first first' width : Nat} {v w : UInt64} :
    field first width v = field first' width w ↔
      ∀ i < width, v.toNat.testBit (first + i) = w.toNat.testBit (first' + i) := by
  constructor
  · intro h i hi
    have hbit := congrArg (fun n => n.testBit i) h
    rwa [testBit_field, testBit_field, decide_eq_true hi, Bool.true_and, Bool.true_and] at hbit
  · intro h
    refine Nat.eq_of_testBit_eq fun i => ?_
    rw [testBit_field, testBit_field]
    by_cases hi : i < width
    · rw [h i hi]
    · rw [decide_eq_false hi, Bool.false_and, Bool.false_and]

end Bits
