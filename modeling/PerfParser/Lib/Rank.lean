import Mathlib.Data.List.Basic
/-!
# Rank — values stored for the members of a set only

A set of numbers below `n`, and a list of one value for each of its members in order.  The value of a member is at its
rank, the number of members below it (`lookup_zip_members`).  The rank of a number that is not a member is that of the
next member, so there is the value of that one, or no value if there is none (`rank_le_iff_of_not_mem`).
-/
namespace Rank

variable {α : Type} (p : Nat → Bool)

/-- The members below `r`. -/
def rank (r : Nat) : Nat := (List.range r).countP p

/-- The members below `n`, in order. -/
def members (n : Nat) : List Nat := (List.range n).filter p

theorem length_members (n : Nat) : (members p n).length = rank p n := List.countP_eq_length_filter.symm

theorem rank_add (r k : Nat) : rank p (r + k) = rank p r + (List.range k).countP (fun i => p (r + i)) := by
  rw [rank, List.range_add, List.countP_append, List.countP_map]
  rfl

theorem rank_mono {r s : Nat} (h : r ≤ s) : rank p r ≤ rank p s := by
  obtain ⟨k, rfl⟩ := Nat.exists_eq_add_of_le h
  rw [rank_add]
  exact Nat.le_add_right _ _

/-- No rank grows where there are no members. -/
theorem rank_le_iff {r n : Nat} (h : r ≤ n) : rank p n ≤ rank p r ↔ ∀ j, r ≤ j → j < n → p j = false := by
  obtain ⟨k, rfl⟩ := Nat.exists_eq_add_of_le h
  have hzero (c : Nat) : rank p r + c ≤ rank p r ↔ c = 0 := by omega
  rw [rank_add, hzero, List.countP_eq_zero]
  constructor
  · intro hnone j hr hj
    have := hnone (j - r) (List.mem_range.2 (by omega))
    rwa [Nat.add_sub_cancel' hr, Bool.not_eq_true] at this
  · intro hnone i hi
    rw [hnone (r + i) (Nat.le_add_right r i) (by have := List.mem_range.1 hi; omega)]
    exact Bool.false_ne_true

theorem rank_lt {r n : Nat} (hr : r < n) (hp : p r = true) : rank p r < rank p n := by
  have hmore := (rank_le_iff p (Nat.le_of_lt hr)).not.2 (fun hnone => by
    rw [hnone r (Nat.le_refl r) hr] at hp
    cases hp)
  exact Nat.not_le.1 hmore

/-- The members in order, divided at one of them. -/
theorem members_split {r n : Nat} (hr : r < n) (hp : p r = true) :
    ∃ after, members p n = members p r ++ r :: after := by
  obtain ⟨k, rfl⟩ := Nat.exists_eq_add_of_lt hr
  rw [members, Nat.add_assoc, List.range_add, List.filter_append, List.range_succ_eq_map, List.map_cons,
    Nat.add_zero, List.filter_cons_of_pos hp]
  exact ⟨_, rfl⟩

theorem lookup_zip_append {a : Nat} : ∀ {before after : List Nat} {values : List α}, a ∉ before →
    ((before ++ a :: after).zip values).lookup a = values[before.length]?
  | [], _, [], _ => rfl
  | [], _, v :: values, _ => by
    rw [List.nil_append, List.zip_cons_cons, List.lookup_cons_self]
    rfl
  | b :: before, _, [], _ => rfl
  | b :: before, after, v :: values, ha => by
    have hne : (a == b) = false := by
      rw [beq_eq_false_iff_ne]
      exact fun h => ha (h ▸ List.mem_cons_self)
    rw [List.cons_append, List.zip_cons_cons, List.lookup_cons, hne]
    exact lookup_zip_append (fun h => ha (List.mem_cons_of_mem b h))

/-- **The value of a member is at its rank.** -/
theorem lookup_zip_members {r n : Nat} (hr : r < n) (hp : p r = true) (values : List α) :
    ((members p n).zip values).lookup r = values[rank p r]? := by
  obtain ⟨after, hsplit⟩ := members_split p hr hp
  rw [hsplit, lookup_zip_append, length_members]
  intro hmem
  exact Nat.lt_irrefl r (List.mem_range.1 (List.mem_filter.1 hmem).1)

/-- **The rank of a number that is not a member is that of the next member**, or of none if there is none. -/
theorem rank_le_iff_of_not_mem {r n : Nat} (hp : p r = false) (hout : ∀ j, n ≤ j → p j = false) :
    rank p n ≤ rank p r ↔ ∀ j, r < j → p j = false := by
  rcases Nat.le_total r n with hr | hr
  · rw [rank_le_iff p hr]
    constructor
    · intro h j hj
      rcases Nat.lt_or_ge j n with hn | hn
      · exact h j (Nat.le_of_lt hj) hn
      · exact hout j hn
    · intro h j hj _
      rcases Nat.eq_or_lt_of_le hj with rfl | hj
      · exact hp
      · exact h j hj
  · exact iff_of_true (rank_mono p hr) (fun j hj => hout j (by omega))

end Rank
