import Mathlib.Data.List.TakeWhile
/-!
# Spans — sorted lists of disjoint half-open spans

A list of elements, each spanning the points from `lo` up to `hi`, laid out in order without overlap.  `seek` is the
search of a sorted vector by its start, `insertAt` the insertion at the lower bound of the start.
-/
namespace Spans

variable {α : Type} (lo hi : α → Nat)

/-- In order and without overlap. -/
def Laid (l : List α) : Prop := l.Pairwise (fun a b => hi a ≤ lo b)

def Covers (a : α) (x : Nat) : Prop := lo a ≤ x ∧ x < hi a

def Apart (a b : α) : Prop := hi a ≤ lo b ∨ hi b ≤ lo a

/-- The last element that starts at or before `x`. -/
def seek (x : Nat) (l : List α) : Option α := (l.takeWhile (fun a => decide (lo a ≤ x))).getLast?

/-- Insertion before the first element that does not start before `e`. -/
def insertAt (e : α) (l : List α) : List α :=
  l.takeWhile (fun a => decide (lo a < lo e)) ++ e :: l.dropWhile (fun a => decide (lo a < lo e))

@[simp] theorem mem_insertAt {e a : α} {l : List α} : a ∈ insertAt lo e l ↔ a = e ∨ a ∈ l := by
  have hl : a ∈ l ↔ a ∈ l.takeWhile (fun a => decide (lo a < lo e)) ∨
      a ∈ l.dropWhile (fun a => decide (lo a < lo e)) := by
    rw [← List.mem_append, List.takeWhile_append_dropWhile]
  rw [hl, insertAt, List.mem_append, List.mem_cons]
  exact or_left_comm

theorem insertAt_cons (e a : α) (l : List α) :
    insertAt lo e (a :: l) = if lo a < lo e then a :: insertAt lo e l else e :: a :: l := by
  unfold insertAt
  by_cases h : lo a < lo e <;> simp [h]

/-- **An insertion apart from every element keeps the layout.** -/
theorem laid_insertAt {e : α} (he : lo e < hi e) : ∀ {l : List α}, Laid lo hi l → (∀ a ∈ l, lo a < hi a) →
    (∀ a ∈ l, Apart lo hi e a) → Laid lo hi (insertAt lo e l)
  | [], _, _, _ => List.pairwise_singleton _ e
  | a :: l, hl, hne, hap => by
    have ha := hne a List.mem_cons_self
    have hrest := List.pairwise_cons.1 hl
    rw [insertAt_cons]
    split
    · rename_i hlt
      have hae : hi a ≤ lo e := by
        rcases hap a List.mem_cons_self with h | h <;> omega
      refine List.pairwise_cons.2 ⟨fun b hb => ?_, laid_insertAt he hrest.2
        (fun b hb => hne b (List.mem_cons_of_mem _ hb)) (fun b hb => hap b (List.mem_cons_of_mem _ hb))⟩
      rcases (mem_insertAt lo).1 hb with rfl | hb
      · exact hae
      · exact hrest.1 b hb
    · rename_i hge
      have hea : hi e ≤ lo a := by
        rcases hap a List.mem_cons_self with h | h <;> omega
      refine List.pairwise_cons.2 ⟨fun b hb => ?_, hl⟩
      rcases List.mem_cons.1 hb with rfl | hb
      · exact hea
      · have := hrest.1 b hb
        omega

theorem Laid.sublist {l l' : List α} (h : Laid lo hi l') (hs : List.Sublist l l') : Laid lo hi l :=
  List.Pairwise.sublist hs h

theorem seek_cons (x : Nat) (a : α) (l : List α) :
    seek lo x (a :: l) = if lo a ≤ x then (seek lo x l).or (some a) else none := by
  unfold seek
  by_cases h : lo a ≤ x
  · simp only [h, decide_true, List.takeWhile_cons_of_pos, List.getLast?_cons, if_true]
    cases (l.takeWhile (fun a => decide (lo a ≤ x))).getLast? <;> rfl
  · simp [h]

theorem mem_of_seek {x : Nat} {a : α} {l : List α} (h : seek lo x l = some a) : a ∈ l ∧ lo a ≤ x := by
  have hm := List.mem_of_getLast? h
  exact ⟨(List.takeWhile_prefix _).sublist.subset hm, by simpa using List.mem_takeWhile_imp hm⟩

theorem Laid.of_map_eq {l l' : List α} (h : l.map (fun a => (lo a, hi a)) = l'.map (fun a => (lo a, hi a)))
    (hl : Laid lo hi l) : Laid lo hi l' := by
  have hspans : (l.map (fun a => (lo a, hi a))).Pairwise (fun a b => a.2 ≤ b.1) := List.pairwise_map.2 hl
  rw [h] at hspans
  exact List.pairwise_map.1 hspans

/-- **On a laid list the search finds the element that covers the point.** -/
theorem seek_of_covers {x : Nat} {a : α} : ∀ {l : List α}, Laid lo hi l → (∀ b ∈ l, lo b < hi b) → a ∈ l →
    Covers lo hi a x → seek lo x l = some a
  | b :: l, hl, hne, hm, hc => by
    have hrest := List.pairwise_cons.1 hl
    rw [seek_cons]
    rcases List.mem_cons.1 hm with rfl | hm
    · rw [if_pos hc.1]
      have hnone : seek lo x l = none := by
        cases hs : seek lo x l with
        | none => rfl
        | some c =>
          obtain ⟨hcl, hcx⟩ := mem_of_seek lo hs
          have := hrest.1 c hcl
          have := hc.2
          omega
      rw [hnone]; rfl
    · have hb := hne b List.mem_cons_self
      have hba := hrest.1 a hm
      have := hc.1
      rw [if_pos (by omega), seek_of_covers hrest.2 (fun c h => hne c (List.mem_cons_of_mem _ h)) hm hc]
      rfl

/-- Two elements of a laid list that cover the same point are the same. -/
theorem Laid.eq_of_covers {l : List α} (hl : Laid lo hi l) (hne : ∀ b ∈ l, lo b < hi b) {a b : α} {x : Nat}
    (ha : a ∈ l) (hb : b ∈ l) (hca : Covers lo hi a x) (hcb : Covers lo hi b x) : a = b := by
  have h1 := seek_of_covers lo hi hl hne ha hca
  have h2 := seek_of_covers lo hi hl hne hb hcb
  exact Option.some.inj (h1.symm.trans h2)

theorem Laid.hi_le_lo {l : List α} (hl : Laid lo hi l) (hne : ∀ b ∈ l, lo b < hi b) {a b : α} (ha : a ∈ l)
    (hb : b ∈ l) (hab : lo a < lo b) : hi a ≤ lo b := by
  by_contra h
  have hpos := hne b hb
  rw [hl.eq_of_covers lo hi hne ha hb (x := lo b) ⟨by omega, by omega⟩ ⟨Nat.le_refl _, hpos⟩] at hab
  omega

theorem lt_of_seek_none {x : Nat} : ∀ {l : List α}, Laid lo hi l → (∀ b ∈ l, lo b < hi b) → seek lo x l = none →
    ∀ b ∈ l, x < lo b
  | c :: l, hl, hne, hs, b, hb => by
    rw [seek_cons] at hs
    split at hs
    · cases hrec : seek lo x l <;> simp [hrec] at hs
    · rename_i hc
      rcases List.mem_cons.1 hb with rfl | hb
      · omega
      · have := (List.pairwise_cons.1 hl).1 b hb
        have := hne c List.mem_cons_self
        omega

/-- The search finds the greatest start at or before the point. -/
theorem le_of_seek {x : Nat} {a : α} : ∀ {l : List α}, Laid lo hi l → (∀ b ∈ l, lo b < hi b) →
    seek lo x l = some a → ∀ b ∈ l, lo b ≤ x → lo b ≤ lo a
  | c :: l, hl, hne, hs, b, hb, hbx => by
    have hrest := List.pairwise_cons.1 hl
    have hc := hne c List.mem_cons_self
    have hne' : ∀ e ∈ l, lo e < hi e := fun e he => hne e (List.mem_cons_of_mem c he)
    rw [seek_cons] at hs
    split at hs
    · cases hrec : seek lo x l with
      | some d =>
        rw [hrec] at hs
        obtain rfl : d = a := by simpa using hs
        rcases List.mem_cons.1 hb with rfl | hb
        · have := hrest.1 d (mem_of_seek lo hrec).1
          omega
        · exact le_of_seek hrest.2 hne' hrec b hb hbx
      | none =>
        rw [hrec] at hs
        obtain rfl : c = a := by simpa using hs
        rcases List.mem_cons.1 hb with rfl | hb
        · exact Nat.le_refl _
        · have := lt_of_seek_none lo hi hrest.2 hne' hrec b hb
          omega
    · cases hs

theorem seek_of_greatest {x : Nat} {a : α} {l : List α} (hl : Laid lo hi l) (hne : ∀ b ∈ l, lo b < hi b) (ha : a ∈ l)
    (hx : lo a ≤ x) (hmax : ∀ b ∈ l, lo b ≤ x → lo b ≤ lo a) : seek lo x l = some a := by
  cases hs : seek lo x l with
  | none =>
    have := lt_of_seek_none lo hi hl hne hs a ha
    omega
  | some b =>
    have hb := mem_of_seek lo hs
    have h1 := le_of_seek lo hi hl hne hs a ha hx
    have h2 := hmax b hb.1 hb.2
    have := hne a ha
    have := hne b hb.1
    rw [hl.eq_of_covers lo hi hne ha hb.1 (x := lo a) ⟨Nat.le_refl _, by omega⟩ ⟨by omega, by omega⟩]

/-- **Elements apart from each other and from a laid list are inserted into a laid list.** -/
theorem laid_foldl_insertAt : ∀ {new l : List α}, Laid lo hi l → (∀ a ∈ l, lo a < hi a) →
    (∀ a ∈ new, lo a < hi a) → new.Pairwise (Apart lo hi) → (∀ a ∈ new, ∀ b ∈ l, Apart lo hi a b) →
    Laid lo hi (new.foldl (fun l e => insertAt lo e l) l)
  | [], _, h, _, _, _, _ => h
  | a :: new, l, h, hl, hn, hp, hap => by
    have hpa := List.pairwise_cons.1 hp
    rw [List.foldl_cons]
    refine laid_foldl_insertAt
      (laid_insertAt lo hi (hn a List.mem_cons_self) h hl (hap a List.mem_cons_self)) (fun b hb => ?_)
      (fun b hb => hn b (List.mem_cons_of_mem _ hb)) hpa.2 (fun b hb c hc => ?_)
    · rcases (mem_insertAt lo).1 hb with rfl | hb
      · exact hn b List.mem_cons_self
      · exact hl b hb
    · rcases (mem_insertAt lo).1 hc with rfl | hc
      · exact (hpa.1 b hb).symm
      · exact hap b (List.mem_cons_of_mem _ hb) c hc

theorem foldl_insertAt_perm : ∀ {new l : List α}, (new.foldl (fun l e => insertAt lo e l) l).Perm (l ++ new)
  | [], l => by rw [List.append_nil]; exact List.Perm.refl l
  | e :: new, l => by
    have hinsert : (insertAt lo e l).Perm (e :: l) := by
      unfold insertAt
      exact List.perm_middle.trans (by rw [List.takeWhile_append_dropWhile])
    rw [List.foldl_cons]
    exact foldl_insertAt_perm.trans ((hinsert.append_right new).trans List.perm_middle.symm)

theorem mem_foldl_insertAt {a : α} {new l : List α} :
    a ∈ new.foldl (fun l e => insertAt lo e l) l ↔ a ∈ new ∨ a ∈ l := by
  rw [(foldl_insertAt_perm lo).mem_iff, List.mem_append]
  exact or_comm

/-- **Insertions keep a list in the order of the starts**, whatever overlaps. -/
theorem ascending_insertAt {e : α} : ∀ {l : List α}, l.Pairwise (fun a b => lo a ≤ lo b) →
    (insertAt lo e l).Pairwise (fun a b => lo a ≤ lo b)
  | [], _ => List.pairwise_singleton _ e
  | a :: l, hl => by
    have hrest := List.pairwise_cons.1 hl
    rw [insertAt_cons]
    split
    · rename_i hlt
      refine List.pairwise_cons.2 ⟨fun b hb => ?_, ascending_insertAt hrest.2⟩
      rcases (mem_insertAt lo).1 hb with rfl | hb
      · exact Nat.le_of_lt hlt
      · exact hrest.1 b hb
    · rename_i hge
      refine List.pairwise_cons.2 ⟨fun b hb => ?_, hl⟩
      rcases List.mem_cons.1 hb with rfl | hb
      · exact Nat.le_of_not_lt hge
      · exact Nat.le_trans (Nat.le_of_not_lt hge) (hrest.1 b hb)

theorem ascending_foldl_insertAt : ∀ {new l : List α}, l.Pairwise (fun a b => lo a ≤ lo b) →
    (new.foldl (fun l e => insertAt lo e l) l).Pairwise (fun a b => lo a ≤ lo b)
  | [], _, hl => hl
  | _ :: _, _, hl => by
    rw [List.foldl_cons]
    exact ascending_foldl_insertAt (ascending_insertAt lo hl)

end Spans
