import Mathlib.Data.List.Destutter
import PerfParser.Lib.StableSort
/-!
# LowerBound — the neighbours of a key in a sorted list

What is below a key is the front of a sorted list.  The first element that is not below it is the first with that key,
if any has it (`head?_dropWhile_iff`), and the last that is below it the last with the greatest key below
(`getLast?_takeWhile_iff`).  A list without the elements that repeat another right before them has the first element of
every run, so of a key it has the first one still, and as its last one the first of the last run
(`getLast?_destutter_iff`).  The last element that is not above a key has the greatest key that is not
(`getLast?_takeWhile_le`).
-/
namespace LowerBound

open StableSort

variable {α β κ : Type}

/-! ## Runs -/

section Runs

variable (f : α → β)

/-- The element that the last run of equal values starts with. -/
def LastRun (l : List α) (e : α) : Prop :=
  ∃ pre run, l = pre ++ e :: run ∧ (∀ x ∈ run, f x = f e) ∧ ∀ x ∈ pre.getLast?, f x ≠ f e

variable {f}

theorem LastRun.mem {l : List α} {e : α} (h : LastRun f l e) : e ∈ l := by
  obtain ⟨pre, run, rfl, -⟩ := h
  exact List.mem_append_right _ List.mem_cons_self

theorem LastRun.cons_cons {a b e : α} {l : List α} (h : LastRun f (b :: l) e) (hab : f a ≠ f b) :
    LastRun f (a :: b :: l) e := by
  obtain ⟨pre, run, hl, hrun, hpre⟩ := h
  refine ⟨a :: pre, run, by rw [hl]; rfl, hrun, fun x hx => ?_⟩
  cases pre with
  | nil =>
    obtain rfl := Option.some.inj hx
    rwa [← (List.cons.inj hl).1]
  | cons c pre => exact hpre x hx

theorem LastRun.cons_same {a b e : α} {l : List α} (h : LastRun f (a :: l) e) (hab : f a = f b) :
    LastRun f (a :: b :: l) e := by
  obtain ⟨pre, run, hl, hrun, hpre⟩ := h
  cases pre with
  | nil =>
    obtain ⟨rfl, rfl⟩ := List.cons.inj hl
    refine ⟨[], b :: l, rfl, fun x hx => ?_, fun x hx => (Option.not_mem_none x hx).elim⟩
    rcases List.mem_cons.1 hx with rfl | hx
    · exact hab.symm
    · exact hrun x hx
  | cons c pre =>
    obtain ⟨rfl, rfl⟩ := List.cons.inj hl
    refine ⟨a :: b :: pre, run, rfl, hrun, fun x hx => ?_⟩
    cases pre with
    | nil =>
      rw [← Option.some.inj hx]
      exact fun hbe => hpre a rfl (hab.trans hbe)
    | cons c pre => exact hpre x hx

variable [DecidableEq β]

theorem head?_destutter' {R : α → α → Prop} [DecidableRel R] : ∀ (a : α) (l : List α),
    (l.destutter' R a).head? = some a
  | _, [] => rfl
  | a, b :: l => by
    rw [List.destutter'_cons]
    split
    · rfl
    · exact head?_destutter' a l

theorem head?_destutter {R : α → α → Prop} [DecidableRel R] (l : List α) : (l.destutter R).head? = l.head? := by
  cases l with
  | nil => rfl
  | cons a l => exact head?_destutter' a l

theorem lastRun_of_destutter' : ∀ (a : α) (l : List α) {e : α},
    (l.destutter' (fun a b => f a ≠ f b) a).getLast? = some e → LastRun f (a :: l) e
  | a, [], e, h => by
    obtain rfl := Option.some.inj h
    exact ⟨[], [], rfl, fun _ hx => (List.not_mem_nil hx).elim, fun x hx => (Option.not_mem_none x hx).elim⟩
  | a, b :: l, e, h => by
    rw [List.destutter'_cons] at h
    split at h
    · rename_i hab
      rw [List.getLast?_cons_of_ne_nil (List.destutter'_ne_nil _ _)] at h
      exact (lastRun_of_destutter' b l h).cons_cons hab
    · rename_i hab
      exact (lastRun_of_destutter' a l h).cons_same (not_not.1 hab)

theorem destutter'_of_run {a : α} : ∀ {run : List α}, (∀ x ∈ run, f x = f a) →
    run.destutter' (fun a b => f a ≠ f b) a = [a]
  | [], _ => rfl
  | b :: run, h => by
    rw [List.destutter'_cons_neg _ (not_not.2 (h b List.mem_cons_self).symm)]
    exact destutter'_of_run fun x hx => h x (List.mem_cons_of_mem b hx)

theorem getLast?_destutter'_append {e : α} {run : List α} (hrun : ∀ x ∈ run, f x = f e) : ∀ (pre : List α) (a : α),
    (∀ x ∈ (a :: pre).getLast?, f x ≠ f e) →
    ((pre ++ e :: run).destutter' (fun a b => f a ≠ f b) a).getLast? = some e
  | [], a, h => by
    rw [List.nil_append, List.destutter'_cons_pos (R := fun a b => f a ≠ f b) _ (h a rfl), destutter'_of_run hrun]
    rfl
  | b :: pre, a, h => by
    rw [List.cons_append, List.destutter'_cons]
    split
    · rw [List.getLast?_cons_of_ne_nil (List.destutter'_ne_nil _ _)]
      exact getLast?_destutter'_append hrun pre b h
    · rename_i hab
      refine getLast?_destutter'_append hrun pre a fun x hx => ?_
      cases pre with
      | nil =>
        rw [← Option.some.inj hx]
        exact fun hae => h b rfl ((not_not.1 hab).symm.trans hae)
      | cons c pre => exact h x hx

/-- **The last element that is kept is the one that the last run starts with.** -/
theorem getLast?_destutter_iff {l : List α} {e : α} :
    (l.destutter (fun a b => f a ≠ f b)).getLast? = some e ↔ LastRun f l e := by
  constructor
  · intro h
    cases l with
    | nil => cases h
    | cons a l => exact lastRun_of_destutter' a l h
  · rintro ⟨pre, run, rfl, hrun, hpre⟩
    cases pre with
    | nil =>
      rw [List.nil_append, List.destutter_cons', destutter'_of_run hrun]
      rfl
    | cons a pre => exact getLast?_destutter'_append hrun pre a hpre

end Runs

/-! ## Fronts of a list -/

section Front

variable {p : α → Bool}

/-- What is the front of a list stands in front of it. -/
theorem takeWhile_eq_filter : ∀ {l : List α}, l.Pairwise (fun a b => p b = true → p a = true) →
    l.takeWhile p = l.filter p ∧ l.dropWhile p = l.filter (fun a => !p a)
  | [], _ => ⟨rfl, rfl⟩
  | a :: l, h => by
    obtain ⟨hhead, htail⟩ := List.pairwise_cons.1 h
    obtain ⟨htake, hdrop⟩ := takeWhile_eq_filter htail
    cases ha : p a with
    | true =>
      rw [List.takeWhile_cons_of_pos ha, List.filter_cons_of_pos ha, List.dropWhile_cons_of_pos ha,
        List.filter_cons_of_neg (by rw [ha]; exact Bool.false_ne_true), htake, hdrop]
      exact ⟨rfl, rfl⟩
    | false =>
      have hno : ∀ b ∈ l, p b = false := fun b hb => Bool.eq_false_iff.2 fun hpb => by
        have := hhead b hb hpb
        rw [ha] at this
        cases this
      have hneg : ¬p a = true := by rw [ha]; exact Bool.false_ne_true
      have hall : l.filter (fun a => !p a) = l := List.filter_eq_self.2 fun b hb => by rw [hno b hb]; rfl
      rw [List.takeWhile_cons_of_neg hneg, List.filter_cons_of_neg hneg, List.dropWhile_cons_of_neg hneg,
        List.filter_cons_of_pos (by rw [ha]; rfl), hall]
      refine ⟨(List.filter_eq_nil_iff.2 fun b hb => ?_).symm, rfl⟩
      rw [hno b hb]
      exact Bool.false_ne_true

end Front

/-! ## The last element of a front -/

section Last

variable (key : α → κ) {l : List α} {t : κ} {e : α}

theorem classOf_filter [DecidableEq κ] {p : α → Bool} (h : ∀ a, key a = t → p a = true) (l : List α) :
    classOf key t (l.filter p) = classOf key t l := by
  rw [classOf, List.filter_filter, classOf]
  refine List.filter_congr fun a _ => ?_
  by_cases ha : key a = t
  · rw [h a ha, Bool.and_true]
  · rw [decide_eq_false ha, Bool.false_and]

variable [DecidableEq κ] [LE κ] [Std.IsLinearOrder κ]

/-- **Where a predicate goes down with the key, the last element of the front is the last with the greatest key that it
holds of.** -/
theorem getLast?_takeWhile_of_down {p : α → Bool} (hdown : ∀ a b, key a ≤ key b → p b = true → p a = true)
    (h : l.Pairwise (KeyLE key)) : (l.takeWhile p).getLast? = some e ↔
      p e = true ∧ (∀ x ∈ l, p x = true → key x ≤ key e) ∧ (classOf key (key e) l).getLast? = some e := by
  rw [(takeWhile_eq_filter (h.imp fun {a b} hab => hdown a b hab)).1]
  have hsorted := h.filter p
  have hlast : ∀ e, (l.filter p).getLast? = some e →
      p e = true ∧ (∀ x ∈ l, p x = true → key x ≤ key e) ∧ (classOf key (key e) l).getLast? = some e := by
    intro e hlast
    obtain ⟨-, hpe⟩ := List.mem_filter.1 (List.mem_of_getLast? hlast)
    obtain ⟨pre, hpre⟩ := List.getLast?_eq_some_iff.1 hlast
    refine ⟨hpe, fun x hx hpx => ?_, ?_⟩
    · have hxmem : x ∈ l.filter p := List.mem_filter.2 ⟨hx, hpx⟩
      rw [hpre] at hxmem hsorted
      rcases List.mem_append.1 hxmem with hx | hx
      · exact (List.pairwise_append.1 hsorted).2.2 x hx e List.mem_cons_self
      · rw [List.mem_singleton.1 hx]
        exact Std.le_refl _
    · have hclass : ∀ a, key a = key e → p a = true := fun a ha => hdown a e (Std.le_of_eq ha) hpe
      rw [← classOf_filter key hclass l, hpre, classOf_append, classOf_cons, if_pos rfl, classOf_nil,
        List.getLast?_concat]
  refine ⟨hlast e, fun ⟨hpe, hgreatest, hclass⟩ => ?_⟩
  have hmem := ((mem_classOf key).1 (List.mem_of_getLast? hclass)).1
  cases hfound : (l.filter p).getLast? with
  | none =>
    rw [List.getLast?_eq_none_iff, List.filter_eq_nil_iff] at hfound
    exact absurd hpe (hfound e hmem)
  | some e' =>
    obtain ⟨hpe', hgreatest', hclass'⟩ := hlast e' hfound
    have hmem' := ((mem_classOf key).1 (List.mem_of_getLast? hclass')).1
    rw [Std.le_antisymm (hgreatest e' hmem' hpe') (hgreatest' e hmem hpe)] at hclass'
    rw [← hclass', hclass]

end Last

/-! ## Neighbours -/

section Neighbours

variable (key : α → κ) {l : List α} {t : κ} {e : α}

section Classes

variable [DecidableEq κ] [LE κ] [Std.IsLinearOrder κ]

/-- Where elements of different keys are kept, each class is without what repeats in it. -/
theorem classOf_destutter' {R S : α → α → Prop} [DecidableRel R] [DecidableRel S]
    (hne : ∀ a b, key a ≠ key b → R a b) (heq : ∀ a b, key a = key b → (R a b ↔ S a b)) (t : κ) :
    ∀ (a : α) (l : List α), (a :: l).Pairwise (KeyLE key) →
      classOf key t (l.destutter' R a) = (classOf key t (a :: l)).destutter S
  | a, [], _ => by
    rw [List.destutter'_nil, classOf_cons]
    split <;> rfl
  | a, b :: l, h => by
    have hb := classOf_destutter' hne heq t b l h.of_cons
    rw [classOf_cons key t a (b :: l)]
    by_cases hab : key a = key b
    · by_cases hR : R a b
      · rw [List.destutter'_cons_pos _ hR, classOf_cons, hb, classOf_cons key t b l]
        by_cases ht : key a = t
        · rw [if_pos ht, if_pos ht, if_pos (hab ▸ ht), List.destutter_cons', List.destutter_cons',
            List.destutter'_cons_pos _ ((heq a b hab).1 hR)]
        · rw [if_neg ht, if_neg ht]
      · have hskip : (a :: l).Pairwise (KeyLE key) := h.sublist ((List.sublist_cons_self b l).cons_cons a)
        rw [List.destutter'_cons_neg _ hR, classOf_destutter' hne heq t a l hskip, classOf_cons key t a l,
          classOf_cons key t b l]
        by_cases ht : key a = t
        · rw [if_pos ht, if_pos ht, if_pos (hab ▸ ht), List.destutter_cons', List.destutter_cons',
            List.destutter'_cons_neg _ fun hS => hR ((heq a b hab).2 hS)]
        · rw [if_neg ht, if_neg ht, if_neg (hab ▸ ht)]
    · rw [List.destutter'_cons_pos _ (hne a b hab), classOf_cons, hb]
      by_cases ht : key a = t
      · -- no element of this class is left
        have hnone : classOf key t (b :: l) = [] := classOf_eq_nil key fun x hx hxt => by
          have hle : key b ≤ key x := by
            rcases List.mem_cons.1 hx with rfl | hx
            · exact Std.le_refl _
            · exact List.rel_of_pairwise_cons h.of_cons hx
          exact hab (Std.le_antisymm (List.rel_of_pairwise_cons h List.mem_cons_self) (by rw [ht, ← hxt]; exact hle))
        rw [if_pos ht, if_pos ht, hnone]
        rfl
      · rw [if_neg ht, if_neg ht]

theorem classOf_destutter {R S : α → α → Prop} [DecidableRel R] [DecidableRel S]
    (hne : ∀ a b, key a ≠ key b → R a b) (heq : ∀ a b, key a = key b → (R a b ↔ S a b)) (t : κ)
    (h : l.Pairwise (KeyLE key)) : classOf key t (l.destutter R) = (classOf key t l).destutter S := by
  cases l with
  | nil => rfl
  | cons a l => exact classOf_destutter' key hne heq t a l h

end Classes

variable [LE κ] [LT κ] [DecidableLT κ] [Std.IsLinearOrder κ] [Std.LawfulOrderLT κ]

theorem pairwise_below (h : l.Pairwise (KeyLE key)) (t : κ) :
    l.Pairwise fun a b => decide (key b < t) = true → decide (key a < t) = true :=
  h.imp fun hab hb => decide_eq_true (Std.lt_of_le_of_lt hab (of_decide_eq_true hb))

variable [DecidableEq κ]

/-- **The first element that is not below a key is the first with that key, if any has it.** -/
theorem head?_dropWhile_iff (h : l.Pairwise (KeyLE key)) :
    (l.dropWhile (fun a => decide (key a < t))).head? = some e ∧ key e = t ↔ (classOf key t l).head? = some e := by
  have hclass : ∀ a, key a = t → (!decide (key a < t)) = true := fun a ha => by
    rw [ha, decide_eq_false (Std.not_lt.2 (Std.le_refl t)), Bool.not_false]
  rw [(takeWhile_eq_filter (pairwise_below key h t)).2, ← classOf_filter key hclass l]
  have hsorted := h.filter fun a => !decide (key a < t)
  have hge : ∀ a ∈ l.filter (fun a => !decide (key a < t)), t ≤ key a := fun a ha => by
    have := (List.mem_filter.1 ha).2
    rw [Bool.not_eq_true', decide_eq_false_iff_not] at this
    exact Std.not_lt.1 this
  generalize l.filter (fun a => !decide (key a < t)) = m at hsorted hge
  cases m with
  | nil =>
    constructor
    · rintro ⟨h, -⟩
      cases h
    · intro h
      cases h
  | cons a m =>
    constructor
    · rintro ⟨ha, ht⟩
      obtain rfl := Option.some.inj ha
      rw [classOf_cons, if_pos ht]
      rfl
    · intro hclass
      obtain ⟨hmem, ht⟩ := (mem_classOf key).1 (List.mem_of_head? hclass)
      -- then none is before it
      have hle : key a ≤ key e := by
        rcases List.mem_cons.1 hmem with rfl | hmem
        · exact Std.le_refl _
        · exact List.rel_of_pairwise_cons hsorted hmem
      have ha : key a = t := Std.le_antisymm (ht ▸ hle) (hge a List.mem_cons_self)
      rw [classOf_cons, if_pos ha] at hclass
      exact ⟨hclass, ht⟩

/-- **The last element that is below a key is the last with the greatest key below.** -/
theorem getLast?_takeWhile_iff (h : l.Pairwise (KeyLE key)) :
    (l.takeWhile (fun a => decide (key a < t))).getLast? = some e ↔
      key e < t ∧ (∀ x ∈ l, key x < t → key x ≤ key e) ∧ (classOf key (key e) l).getLast? = some e := by
  have hdown : ∀ a b, key a ≤ key b → decide (key b < t) = true → decide (key a < t) = true := fun a b hab hb =>
    decide_eq_true (Std.lt_of_le_of_lt hab (of_decide_eq_true hb))
  rw [getLast?_takeWhile_of_down key hdown h]
  simp only [decide_eq_true_iff]

end Neighbours

/-! ## What is not above a key -/

section UpperBound

variable (key : α → κ) {l : List α} {t : κ} {e : α} [LE κ] [DecidableLE κ] [Std.IsLinearOrder κ]

theorem notAbove_down (a b : α) (hab : key a ≤ key b) (hb : decide (key b ≤ t) = true) : decide (key a ≤ t) = true :=
  decide_eq_true (Std.le_trans hab (of_decide_eq_true hb))

/-- There is none where all keys are above. -/
theorem getLast?_takeWhile_le_eq_none_iff (h : l.Pairwise (KeyLE key)) :
    (l.takeWhile (fun a => decide (key a ≤ t))).getLast? = none ↔ ∀ x ∈ l, ¬key x ≤ t := by
  have hmono : l.Pairwise fun a b => decide (key b ≤ t) = true → decide (key a ≤ t) = true :=
    h.imp fun {a b} hab => notAbove_down key a b hab
  rw [(takeWhile_eq_filter hmono).1, List.getLast?_eq_none_iff, List.filter_eq_nil_iff]
  exact forall₂_congr fun x _ => not_congr decide_eq_true_iff

variable [DecidableEq κ]

/-- **The last element that is not above a key is the last with the greatest key that is not.** -/
theorem getLast?_takeWhile_le_iff (h : l.Pairwise (KeyLE key)) :
    (l.takeWhile (fun a => decide (key a ≤ t))).getLast? = some e ↔
      key e ≤ t ∧ (∀ x ∈ l, key x ≤ t → key x ≤ key e) ∧ (classOf key (key e) l).getLast? = some e := by
  rw [getLast?_takeWhile_of_down key (notAbove_down key) h]
  simp only [decide_eq_true_iff]

theorem getLast?_takeWhile_le (h : l.Pairwise (KeyLE key))
    (hlast : (l.takeWhile (fun a => decide (key a ≤ t))).getLast? = some e) :
    e ∈ l ∧ key e ≤ t ∧ ∀ x ∈ l, key x ≤ t → key x ≤ key e := by
  obtain ⟨hle, hgreatest, hclass⟩ := (getLast?_takeWhile_le_iff key h).1 hlast
  exact ⟨((mem_classOf key).1 (List.mem_of_getLast? hclass)).1, hle, hgreatest⟩

end UpperBound

end LowerBound
