import Mathlib.Data.List.Sort
/-!
# StableSort — stable sorting by a key, and queues that keep the order inside a key

The class of a key in a list is the sublist of the elements with that key, in their order.  A stable sort keeps every
class (`classOf_sortBy`) and is the only sorted list with these classes (`eq_sortBy`), so whatever is emitted sorted
and class by class in arrival order is the stable sort of what arrived.  A `Sorter` need not be stable.
-/
namespace StableSort

set_option linter.unusedSectionVars false

variable {α κ : Type} [DecidableEq κ] (key : α → κ)

/-- The elements of `l` with key `t`, in the order of `l`. -/
def classOf (t : κ) (l : List α) : List α := l.filter (fun a => decide (key a = t))

@[simp] theorem classOf_nil (t : κ) : classOf key t [] = [] := rfl

@[simp] theorem classOf_append (t : κ) (l₁ l₂ : List α) :
    classOf key t (l₁ ++ l₂) = classOf key t l₁ ++ classOf key t l₂ := List.filter_append ..

theorem classOf_cons (t : κ) (a : α) (l : List α) :
    classOf key t (a :: l) = if key a = t then a :: classOf key t l else classOf key t l := by
  simp [classOf, List.filter_cons]

theorem mem_classOf {t : κ} {a : α} {l : List α} : a ∈ classOf key t l ↔ a ∈ l ∧ key a = t := by
  simp [classOf, List.mem_filter]

theorem classOf_eq_nil {t : κ} {l : List α} (h : ∀ a ∈ l, key a ≠ t) : classOf key t l = [] :=
  List.filter_eq_nil_iff.2 (fun a ha => by simpa using h a ha)

/-- Two lists with the same elements of every key, in the same order. -/
def SameClasses (l₁ l₂ : List α) : Prop := ∀ t, classOf key t l₁ = classOf key t l₂

theorem SameClasses.symm {l₁ l₂ : List α} (h : SameClasses key l₁ l₂) : SameClasses key l₂ l₁ := fun t => (h t).symm

theorem SameClasses.trans {l₁ l₂ l₃ : List α} (h : SameClasses key l₁ l₂) (h' : SameClasses key l₂ l₃) :
    SameClasses key l₁ l₃ := fun t => (h t).trans (h' t)

theorem SameClasses.append {l₁ l₂ m₁ m₂ : List α} (h : SameClasses key l₁ l₂) (h' : SameClasses key m₁ m₂) :
    SameClasses key (l₁ ++ m₁) (l₂ ++ m₂) := fun t => by rw [classOf_append, classOf_append, h t, h' t]

theorem SameClasses.mem_iff {l₁ l₂ : List α} (h : SameClasses key l₁ l₂) (a : α) : a ∈ l₁ ↔ a ∈ l₂ := by
  have := congrArg (a ∈ ·) (h (key a))
  simpa [mem_classOf] using this

/-- **Lists with the same classes are permutations of each other.** -/
theorem SameClasses.perm {l₁ l₂ : List α} (h : SameClasses key l₁ l₂) : l₁.Perm l₂ := by
  classical
  rw [List.perm_iff_count]
  intro a
  have hc : ∀ l : List α, (classOf key (key a) l).count a = l.count a :=
    fun l => List.count_filter (by simp)
  rw [← hc l₁, ← hc l₂, h (key a)]

/-! ## A queue that emits class by class -/

/-- `out` and the waiting `buf` together are `inp`, class by class in arrival order. -/
def Queued (out buf inp : List α) : Prop := SameClasses key (out ++ buf) inp

theorem Queued.arrive {out buf inp : List α} (h : Queued key out buf inp) (a : α) :
    Queued key out (buf ++ [a]) (inp ++ [a]) := by
  unfold Queued
  rw [← List.append_assoc]
  exact h.append key (fun _ => rfl)

theorem Queued.pop {out buf inp : List α} {a : α} (h : Queued key out (a :: buf) inp) :
    Queued key (out ++ [a]) buf inp := by
  unfold Queued at h ⊢
  rwa [List.append_assoc, List.singleton_append]

/-- What is emitted of a key is a prefix of what arrived of it. -/
theorem Queued.classOf_prefix {out buf inp : List α} (h : Queued key out buf inp) (t : κ) :
    classOf key t out <+: classOf key t inp := by
  rw [← h t, classOf_append]
  exact List.prefix_append _ _

/-- A key that no longer waits is emitted completely. -/
theorem Queued.classOf_eq {out buf inp : List α} (h : Queued key out buf inp) {t : κ} (hb : ∀ a ∈ buf, key a ≠ t) :
    classOf key t out = classOf key t inp := by
  rw [← h t, classOf_append, classOf_eq_nil key hb, List.append_nil]

/-! ## Sorting -/

variable [LE κ] [DecidableLE κ] [Std.IsLinearOrder κ]

/-- The key order on elements. -/
def KeyLE (a b : α) : Prop := key a ≤ key b

instance : DecidableRel (KeyLE key) := fun a b => inferInstanceAs (Decidable (key a ≤ key b))

instance : Std.Total (KeyLE key) := ⟨fun _ _ => Std.le_total⟩

instance : IsTrans α (KeyLE key) := ⟨fun _ _ _ => Std.le_trans⟩

/-- The stable sort of `l` by `key`. -/
def sortBy (l : List α) : List α := l.insertionSort (KeyLE key)

theorem sortBy_sorted (l : List α) : (sortBy key l).Pairwise (KeyLE key) := List.pairwise_insertionSort _ l

theorem sortBy_perm (l : List α) : (sortBy key l).Perm l := List.perm_insertionSort _ l

@[simp] theorem mem_sortBy (l : List α) (a : α) : a ∈ sortBy key l ↔ a ∈ l := (sortBy_perm key l).mem_iff

theorem sortBy_of_sorted {l : List α} (h : l.Pairwise (KeyLE key)) : sortBy key l = l :=
  List.Pairwise.insertionSort_eq h

theorem classOf_orderedInsert (t : κ) (a : α) : ∀ l : List α,
    classOf key t (l.orderedInsert (KeyLE key) a) = classOf key t (a :: l)
  | [] => rfl
  | b :: l => by
    rw [List.orderedInsert]
    split
    · rfl
    · rename_i hab
      -- `a` moves behind `b` only when their keys differ
      have hne : key a ≠ key b := fun he => hab (by unfold KeyLE; rw [he]; exact Std.le_refl _)
      rw [classOf_cons, classOf_orderedInsert t a l]
      simp only [classOf_cons]
      by_cases ha : key a = t <;> by_cases hb : key b = t <;> simp_all

/-- **A stable sort keeps every class.** -/
theorem classOf_sortBy (t : κ) : ∀ l : List α, classOf key t (sortBy key l) = classOf key t l
  | [] => rfl
  | a :: l => by
    have ih := classOf_sortBy t l
    unfold sortBy at ih ⊢
    rw [List.insertionSort_cons, classOf_orderedInsert, classOf_cons, classOf_cons, ih]

theorem sortBy_sameClasses (l : List α) : SameClasses key (sortBy key l) l := fun t => classOf_sortBy key t l

/-- **A sorted list is determined by its classes.** -/
theorem SameClasses.eq_of_sorted : ∀ {l₁ l₂ : List α}, SameClasses key l₁ l₂ → l₁.Pairwise (KeyLE key) →
    l₂.Pairwise (KeyLE key) → l₁ = l₂
  | [], l₂, h, _, _ => by
    have := h.perm
    exact (List.nil_perm.1 this).symm
  | a :: l₁, [], h, _, _ => by
    have := h.perm
    cases List.perm_nil.1 this
  | a :: l₁, b :: l₂, h, h₁, h₂ => by
    have hle : ∀ {x y : α} {m n : List α}, SameClasses key (x :: m) (y :: n) → (y :: n).Pairwise (KeyLE key) →
        key y ≤ key x := by
      intro x y m n hs hp
      rcases List.mem_cons.1 ((hs.mem_iff key x).1 List.mem_cons_self) with rfl | hx
      · exact Std.le_refl _
      · exact List.rel_of_pairwise_cons hp hx
    have hk : key a = key b := Std.le_antisymm (hle (h.symm key) h₁) (hle h h₂)
    have hhead := h (key a)
    rw [classOf_cons, classOf_cons, if_pos rfl, if_pos hk.symm] at hhead
    obtain ⟨rfl, -⟩ := List.cons.inj hhead
    have htail : SameClasses key l₁ l₂ := fun t => by
      have := h t
      rw [classOf_cons, classOf_cons] at this
      split at this
      · exact (List.cons.inj this).2
      · exact this
    rw [htail.eq_of_sorted h₁.of_cons h₂.of_cons]

/-- **The stable sort is the only sorted list with the classes of `l`.** -/
theorem eq_sortBy {l₁ l : List α} (h : SameClasses key l₁ l) (hs : l₁.Pairwise (KeyLE key)) : l₁ = sortBy key l :=
  (h.trans key (sortBy_sameClasses key l).symm).eq_of_sorted key hs (sortBy_sorted key l)

theorem Queued.sort {out buf inp : List α} (h : Queued key out buf inp) : Queued key out (sortBy key buf) inp :=
  SameClasses.trans key (SameClasses.append key (fun _ => rfl) (sortBy_sameClasses key buf)) h

/-- **A drained queue that emitted in key order has emitted the stable sort.** -/
theorem Queued.eq_sortBy {out inp : List α} (h : Queued key out [] inp) (hs : out.Pairwise (KeyLE key)) :
    out = sortBy key inp := by
  unfold Queued at h
  rw [List.append_nil] at h
  exact StableSort.eq_sortBy key h hs

/-! ## Sorting that need not be stable -/

/-- A sort by the key: of elements with one key any may come first. -/
structure Sorter where
  sort : List α → List α
  perm : ∀ l, (sort l).Perm l
  sorted : ∀ l, (sort l).Pairwise (KeyLE key)

namespace Sorter

/-- The stable sort is one. -/
def stable : Sorter key where
  sort := sortBy key
  perm := sortBy_perm key
  sorted := sortBy_sorted key

/-- One that puts an element behind all others with its key. -/
def lastTo [DecidableEq α] (a : α) : Sorter key where
  sort l := sortBy key (l.filter (fun b => !decide (b = a)) ++ l.filter (fun b => decide (b = a)))
  perm l := (sortBy_perm key _).trans (List.perm_append_comm.trans (List.filter_append_perm (fun b => decide (b = a)) l))
  sorted _ := sortBy_sorted key _

variable {key}

theorem getLast?_lastTo [DecidableEq α] {a : α} {l : List α} (h : a ∈ l) :
    (classOf key (key a) ((lastTo key a).sort l)).getLast? = some a := by
  have hsame : ∀ b ∈ classOf key (key a) (l.filter (fun b => decide (b = a))), b = a := fun b hb =>
    of_decide_eq_true (List.mem_filter.1 ((mem_classOf key).1 hb).1).2
  have hmem : a ∈ classOf key (key a) (l.filter (fun b => decide (b = a))) :=
    (mem_classOf key).2 ⟨List.mem_filter.2 ⟨h, decide_eq_true rfl⟩, rfl⟩
  have hne := List.ne_nil_of_mem hmem
  rw [lastTo, classOf_sortBy, classOf_append, List.getLast?_append_of_ne_nil _ hne,
    List.getLast?_eq_some_getLast hne, hsame _ (List.getLast_mem hne)]

@[simp] theorem mem_sort (s : Sorter key) {l : List α} {a : α} : a ∈ s.sort l ↔ a ∈ l := (s.perm l).mem_iff

end Sorter

end StableSort
