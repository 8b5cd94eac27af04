import Mathlib.Data.Finite.Defs
import Mathlib.Data.List.Nodup
import Mathlib.Order.WellFoundedSet
/-!
# KeyedSearch — depth-first search that remembers keys

A tree of words: the entries of a word are what it can be continued with.  The search from a word goes down the entries
in order until it meets a word with the goal.  It does not go below a word of which it has seen the key before.  Words
with one key need not have the same words below them, so the search may miss a goal: what it goes below is the set of
words that come first with their key (`FirstCome`), of which there is exactly one (`FirstCome.unique`), and it finds
the goal if and only if that has a word with the goal, or an entry with it (`search_spec`).
-/
namespace KeyedSearch

variable {ν κ : Type} (entries : List ν → List ν) (key : List ν → κ) (goal : List ν → Bool)

section Search

variable [DecidableEq κ]

/-- The entries of a word, until the goal is met. -/
def searchIn (rec : List ν → List (List ν) → Option (Bool × List (List ν))) (a : List ν) :
    List ν → List (List ν) → Option (Bool × List (List ν))
  | [], visited => some (false, visited)
  | x :: xs, visited =>
    match rec (a ++ [x]) visited with
    | none => none
    | some (true, visited) => some (true, visited)
    | some (false, visited) => searchIn rec a xs visited

/-- The search from a word, to a depth, with the words that it went below before. -/
def search : Nat → List ν → List (List ν) → Option (Bool × List (List ν))
  | 0, _, _ => none
  | n + 1, a, visited =>
    if goal a then some (true, visited)
    else if key a ∈ visited.map key then some (false, visited)
    else searchIn (search n) a (entries a) (visited ++ [a])

/-- The search without a goal: the words that it goes below. -/
def explore : Nat → List ν → List (List ν) → Option (List (List ν))
  | 0, _, _ => none
  | n + 1, a, visited =>
    if key a ∈ visited.map key then some visited
    else (entries a).foldlM (fun visited x => explore n (a ++ [x]) visited) (visited ++ [a])

end Search

/-! ## What the search goes below -/

/-- One comes before the other in a list. -/
def Earlier (l : List ν) (x y : ν) : Prop := ∃ i j : Nat, i < j ∧ l[i]? = some x ∧ l[j]? = some y

/-- One word is met before the other on the way down from `a`. -/
def Before : List ν → List ν → List ν → Prop
  | _, [], t => t ≠ []
  | _, _ :: _, [] => False
  | a, x :: s, y :: t => (x = y ∧ Before (a ++ [x]) s t) ∨ Earlier (entries a) x y

/-- Entries all the way down from `a`. -/
def Listed : List ν → List ν → Prop
  | _, [] => True
  | a, x :: s => x ∈ entries a ∧ Listed (a ++ [x]) s

/-- The words below `a` that come first with their key: those with their parent among them, of which neither the key
is taken nor one of them with that key is met before. -/
structure FirstCome (a : List ν) (taken : List κ) (S : Set (List ν)) : Prop where
  listed : ∀ s ∈ S, Listed entries a s
  mem_iff : ∀ s, Listed entries a s → (s ∈ S ↔ (s = [] ∨ s.dropLast ∈ S) ∧ key (a ++ s) ∉ taken ∧
    ∀ t ∈ S, Before entries a t s → key (a ++ t) ≠ key (a ++ s))

/-- The goal is at the start, or at an entry of a word of the set. -/
def Meets (a : List ν) (S : Set (List ν)) : Prop :=
  goal a = true ∨ ∃ s ∈ S, ∃ x ∈ entries (a ++ s), goal (a ++ s ++ [x]) = true

variable {entries key goal}

/-! ## The order in which words are met -/

section Order

variable {l : List ν} {x y z : ν}

theorem Earlier.trans (hl : l.Nodup) (hxy : Earlier l x y) (hyz : Earlier l y z) : Earlier l x z := by
  obtain ⟨i, j, hij, hi, hj⟩ := hxy
  obtain ⟨j', k, hjk, hj', hk⟩ := hyz
  have hlt : j < l.length := (List.getElem?_eq_some_iff.1 hj).1
  have hsame : j = j' := List.getElem?_inj hlt hl |>.1 (hj.trans hj'.symm)
  exact ⟨i, k, by omega, hi, hk⟩

theorem Earlier.irrefl (hl : l.Nodup) : ¬ Earlier l x x := by
  rintro ⟨i, j, hij, hi, hj⟩
  have hlt : i < l.length := (List.getElem?_eq_some_iff.1 hi).1
  have hsame : i = j := List.getElem?_inj hlt hl |>.1 (hi.trans hj.symm)
  omega

theorem earlier_of_split {before after : List ν} (hsplit : l = before ++ x :: after) (hy : y ∈ after) :
    Earlier l x y := by
  obtain ⟨k, hk⟩ := List.mem_iff_getElem?.1 hy
  refine ⟨before.length, before.length + (k + 1), by omega, ?_, ?_⟩
  · rw [hsplit, List.getElem?_append_right (Nat.le_refl _), Nat.sub_self, List.getElem?_cons_zero]
  · rw [hsplit, List.getElem?_append_right (Nat.le_add_right _ _), Nat.add_sub_cancel_left, List.getElem?_cons_succ, hk]

variable (hnodup : ∀ a, (entries a).Nodup) {a s t u : List ν}
include hnodup

theorem Before.trans (hst : Before entries a s t) (htu : Before entries a t u) : Before entries a s u := by
  induction s generalizing a t u with
  | nil =>
    cases t with
    | nil => exact htu
    | cons y t =>
      cases u with
      | nil => exact htu.elim
      | cons z u => exact List.cons_ne_nil z u
  | cons x s ih =>
    cases t with
    | nil => exact hst.elim
    | cons y t =>
      cases u with
      | nil => exact htu.elim
      | cons z u =>
        rcases hst with ⟨rfl, hst⟩ | hxy <;> rcases htu with ⟨rfl, htu⟩ | hyz
        · exact .inl ⟨rfl, ih hst htu⟩
        · exact .inr hyz
        · exact .inr hxy
        · exact .inr (hxy.trans (hnodup a) hyz)

theorem Before.irrefl : ¬ Before entries a s s := by
  induction s generalizing a with
  | nil => exact fun h => h rfl
  | cons x s ih =>
    rintro (⟨-, h⟩ | h)
    · exact ih h
    · exact h.irrefl (hnodup a)

theorem before_cons_iff : Before entries a (x :: s) (x :: t) ↔ Before entries (a ++ [x]) s t := by
  refine ⟨fun h => ?_, fun h => .inl ⟨rfl, h⟩⟩
  rcases h with ⟨-, h⟩ | h
  · exact h
  · exact (h.irrefl (hnodup a)).elim

end Order

theorem before_dropLast {s : List ν} (hs : s ≠ []) : ∀ {a : List ν}, Before entries a s.dropLast s := by
  induction s with
  | nil => exact (hs rfl).elim
  | cons x s ih =>
    intro a
    cases s with
    | nil => exact List.cons_ne_nil x []
    | cons y s =>
      rw [List.dropLast_cons_of_ne_nil (List.cons_ne_nil y s)]
      exact .inl ⟨rfl, ih (List.cons_ne_nil y s)⟩

/-! ## There is one such set -/

namespace FirstCome

variable {a : List ν} {taken : List κ} {S V : Set (List ν)}

theorem dropLast_mem (hS : FirstCome entries key a taken S) {s : List ν} (hs : s ∈ S) (hne : s ≠ []) :
    s.dropLast ∈ S := ((hS.mem_iff s (hS.listed s hs)).1 hs).1.resolve_left hne

/-- The words on the way to one of the words. -/
theorem append_mem (hS : FirstCome entries key a taken S) {s t : List ν} (h : s ++ t ∈ S) : s ∈ S := by
  induction t using List.reverseRecOn with
  | nil => rwa [List.append_nil] at h
  | append_singleton t x ih =>
    rw [← List.append_assoc] at h
    have hdrop := hS.dropLast_mem h (List.append_ne_nil_of_right_ne_nil _ (List.cons_ne_nil x []))
    rw [List.dropLast_concat] at hdrop
    exact ih hdrop

/-- The start comes first, if its key is not taken. -/
theorem nil_mem (hS : FirstCome entries key a taken S) (hkey : key a ∉ taken) : [] ∈ S := by
  refine (hS.mem_iff [] trivial).2 ⟨.inl rfl, ?_, fun t _ hbefore => ?_⟩
  · rwa [List.append_nil]
  · cases t with
    | nil => exact (hbefore rfl).elim
    | cons x t => exact hbefore.elim

theorem key_ne (hS : FirstCome entries key a taken S) {s t : List ν} (hs : s ∈ S) (ht : t ∈ S)
    (hbefore : Before entries a t s) : key (a ++ t) ≠ key (a ++ s) :=
  ((hS.mem_iff s (hS.listed s hs)).1 hs).2.2 t ht hbefore

/-- What is in one set and not in the other has the key of an earlier word of the other, if its parent is there. -/
theorem exists_before (hS : FirstCome entries key a taken S) (hV : FirstCome entries key a taken V) {s : List ν}
    (hs : s ∈ S) (hparent : s ≠ [] → s.dropLast ∈ V) (hout : s ∉ V) :
    ∃ t ∈ V, Before entries a t s ∧ key (a ++ t) = key (a ++ s) := by
  by_contra hnone
  refine hout ((hV.mem_iff s (hS.listed s hs)).2 ⟨?_, ((hS.mem_iff s (hS.listed s hs)).1 hs).2.1, ?_⟩)
  · exact (Classical.em (s = [])).imp_right hparent
  · exact fun t ht hbefore hkey => hnone ⟨t, ht, hbefore, hkey⟩

variable (hnodup : ∀ a, (entries a).Nodup)
include hnodup

/-- What is met before a word is in both sets, if it is in one of them. -/
theorem subset_before (hS : FirstCome entries key a taken S) (hV : FirstCome entries key a taken V) {p : List ν}
    (hbefore : ∀ q ∈ V, Before entries a q p → q ∈ S) {u : List ν} (hu : u ∈ S) (hup : Before entries a u p) :
    u ∈ V := by
  induction u using List.reverseRecOn with
  | nil =>
    by_contra hout
    obtain ⟨t, -, ht, -⟩ := exists_before hS hV hu (fun hne => (hne rfl).elim) hout
    cases t with
    | nil => exact ht rfl
    | cons x t => exact ht
  | append_singleton parent x ih =>
    have hne : parent ++ [x] ≠ [] := List.append_ne_nil_of_right_ne_nil _ (List.cons_ne_nil x [])
    have hdrop : (parent ++ [x]).dropLast = parent := List.dropLast_concat
    have hparent : parent ∈ V := by
      refine ih (hdrop ▸ dropLast_mem hS hu hne) (Before.trans hnodup ?_ hup)
      have hlast : Before entries a _ _ := before_dropLast hne
      rwa [hdrop] at hlast
    by_contra hout
    obtain ⟨t, ht, htu, hkey⟩ := exists_before hS hV hu (fun _ => hdrop.symm ▸ hparent) hout
    exact key_ne hS hu (hbefore t ht (htu.trans hnodup hup)) htu hkey

/-- **There is one such set**, if there is a finite one. -/
theorem unique (hS : FirstCome entries key a taken S) (hV : FirstCome entries key a taken V) (hfinite : V.Finite) :
    S = V := by
  have hsub : ∀ p ∈ V, p ∈ S := by
    have : IsStrictOrder (List ν) (Before entries a) :=
      { irrefl := fun s => Before.irrefl hnodup, trans := fun s t u => Before.trans hnodup }
    intro p hp
    refine Set.WellFoundedOn.induction (hfinite.wellFoundedOn (r := Before entries a)) hp (fun p hp ih => ?_)
    by_contra hout
    have hparent : p ≠ [] → p.dropLast ∈ S := fun hne =>
      ih p.dropLast (dropLast_mem hV hp hne) (before_dropLast hne)
    obtain ⟨t, ht, htp, hkey⟩ := exists_before hV hS hp hparent hout
    exact key_ne hV hp (subset_before hnodup hS hV ih ht htp) htp hkey
  refine Set.Subset.antisymm (fun s hs => ?_) hsub
  by_contra hout
  -- the words in both up to `s`
  have hall : ∀ u ∈ S, Before entries a u s → u ∈ V := fun u hu hus =>
    subset_before hnodup hS hV (fun q hq _ => hsub q hq) hu hus
  have hparent : s ≠ [] → s.dropLast ∈ V := fun hne => hall _ (dropLast_mem hS hs hne) (before_dropLast hne)
  obtain ⟨t, ht, hts, hkey⟩ := exists_before hS hV hs hparent hout
  exact key_ne hS hs (hsub t ht) hts hkey

end FirstCome

/-! ## The search without a goal -/

section Explore

variable [DecidableEq κ] {K : List κ} (hK : ∀ s, key s ∈ K)

/-- The keys that are left. -/
def left (key : List ν → κ) (K : List κ) (visited : List (List ν)) : Nat := K.countP (fun k => k ∉ visited.map key)

theorem left_mono {K : List κ} {visited visited' : List (List ν)} (h : visited <+: visited') :
    left key K visited' ≤ left key K visited := by
  refine List.countP_mono_left (fun k _ hk => ?_)
  rw [decide_eq_true_iff] at hk ⊢
  exact fun hmem => hk ((h.map key).subset hmem)

include hK in
theorem left_append {visited : List (List ν)} {a : List ν} (h : key a ∉ visited.map key) :
    left key K (visited ++ [a]) < left key K visited := by
  obtain ⟨before, after, rfl⟩ := List.append_of_mem (hK a)
  have hfst : left key before (visited ++ [a]) ≤ left key before visited := left_mono (List.prefix_append _ _)
  have hsnd : left key after (visited ++ [a]) ≤ left key after visited := left_mono (List.prefix_append _ _)
  have hin : key a ∈ (visited ++ [a]).map key := List.mem_map_of_mem (List.mem_append_right _ List.mem_cons_self)
  unfold left at *
  simp only [List.countP_append, List.countP_cons, hin, h, not_true_eq_false, not_false_eq_true, decide_true,
    decide_false, Bool.false_eq_true, if_true, if_false]
  omega

/-- One step after the other keeps what each keeps. -/
theorem foldlM_some {β : Type} {f : β → ν → Option β} {P : β → Prop}
    (hstep : ∀ b x, P b → ∃ b', f b x = some b' ∧ P b') :
    ∀ (xs : List ν) {b : β}, P b → ∃ b', xs.foldlM f b = some b' ∧ P b'
  | [], b, hb => ⟨b, rfl, hb⟩
  | x :: xs, b, hb => by
    obtain ⟨b', hf, hb'⟩ := hstep b x hb
    obtain ⟨b'', hrest, hb''⟩ := foldlM_some hstep xs hb'
    refine ⟨b'', ?_, hb''⟩
    rw [List.foldlM_cons, hf]
    exact hrest

theorem foldlM_longer {β : Type} {f : List β → ν → Option (List β)} (hf : ∀ b x b', f b x = some b' → b <+: b') :
    ∀ {xs : List ν} {b b' : List β}, xs.foldlM f b = some b' → b <+: b'
  | [], b, b', h => by
    obtain rfl := Option.some.inj h
    exact List.prefix_refl b
  | x :: xs, b, b', h => by
    rw [List.foldlM_cons] at h
    obtain ⟨b'', hb, hrest⟩ := Option.bind_eq_some_iff.1 h
    exact (hf b x b'' hb).trans (foldlM_longer hf hrest)

theorem explore_longer : ∀ {n : Nat} {a : List ν} {visited v : List (List ν)},
    explore entries key n a visited = some v → visited <+: v
  | 0, _, _, _, h => by cases h
  | n + 1, a, visited, v, h => by
    rw [explore] at h
    split at h
    · obtain rfl := Option.some.inj h
      exact List.prefix_refl visited
    · exact (List.prefix_append _ _).trans (foldlM_longer (fun _ _ _ => explore_longer) h)

include hK in
/-- **The search ends**, to a depth above the number of keys that are left, and goes below no two words with one key. -/
theorem explore_ends : ∀ {n : Nat} (a : List ν) {visited : List (List ν)}, left key K visited < n →
    (visited.map key).Nodup → ∃ v, explore entries key n a visited = some v ∧ (v.map key).Nodup
  | 0, _, _, hn, _ => (Nat.not_lt_zero _ hn).elim
  | n + 1, a, visited, hn, hkeys => by
    by_cases hmem : key a ∈ visited.map key
    · exact ⟨visited, if_pos hmem, hkeys⟩
    · have hless := left_append hK hmem
      have hstart : ((visited ++ [a]).map key).Nodup := by
        rw [List.map_append, List.map_singleton, ← List.concat_eq_append]
        exact hkeys.concat hmem
      obtain ⟨v, hv, -, hnodup⟩ := foldlM_some
        (f := fun visited x => explore entries key n (a ++ [x]) visited)
        (P := fun v => visited ++ [a] <+: v ∧ (v.map key).Nodup) (fun v x hv => by
          have hleft : left key K v < n := Nat.lt_of_le_of_lt (left_mono hv.1) (by omega)
          obtain ⟨v', hv', hnodup⟩ := explore_ends (a ++ [x]) hleft hv.2
          exact ⟨v', hv', hv.1.trans (explore_longer hv'), hnodup⟩) (entries a) ⟨List.prefix_refl _, hstart⟩
      refine ⟨v, ?_, hnodup⟩
      rw [explore, if_neg hmem, hv]

end Explore

/-! ## What it goes below -/

section Below

variable (entries key) in
/-- As `FirstCome`, of the words that start with one of some entries of `a`. -/
structure FirstComeIn (a xs : List ν) (taken : List κ) (W : List (List ν)) : Prop where
  listed : ∀ s ∈ W, ∃ x ∈ xs, ∃ s', s = x :: s' ∧ Listed entries (a ++ [x]) s'
  mem_iff : ∀ x ∈ xs, ∀ s, Listed entries (a ++ [x]) s → (x :: s ∈ W ↔
    (s = [] ∨ x :: s.dropLast ∈ W) ∧ key (a ++ x :: s) ∉ taken ∧
      ∀ t ∈ W, Before entries a t (x :: s) → key (a ++ t) ≠ key (a ++ x :: s))

variable {a xs : List ν} {x : ν} {taken : List κ} {W V : List (List ν)}

theorem firstComeIn_nil : FirstComeIn entries key a [] taken [] where
  listed := fun s hs => by cases hs
  mem_iff := fun x hx => by cases hx

theorem firstCome_of_taken (h : key a ∈ taken) : FirstCome entries key a taken {s | s ∈ ([] : List (List ν))} where
  listed := fun s hs => by cases hs
  mem_iff := by
    intro s _
    refine iff_of_false List.not_mem_nil ?_
    rintro ⟨rfl | hparent, hkey, -⟩
    · rw [List.append_nil] at hkey
      exact hkey h
    · exact List.not_mem_nil hparent

/-- A word that goes below its entries comes first with its key, and its entries come after it. -/
theorem FirstComeIn.firstCome (hkey : key a ∉ taken)
    (h : FirstComeIn entries key a (entries a) (taken ++ [key a]) W) :
    FirstCome entries key a taken {s | s ∈ [] :: W} where
  listed := by
    intro s hs
    rcases List.mem_cons.1 hs with rfl | hs
    · trivial
    · obtain ⟨x, hx, s', rfl, hs'⟩ := h.listed s hs
      exact ⟨hx, hs'⟩
  mem_iff := by
    intro s hs
    cases s with
    | nil =>
      refine iff_of_true List.mem_cons_self ⟨.inl rfl, ?_, ?_⟩
      · rwa [List.append_nil]
      · intro t _ ht
        cases t with
        | nil => exact (ht rfl).elim
        | cons y t => exact ht.elim
    | cons x s =>
      have hin : x :: s ∈ [] :: W ↔ x :: s ∈ W :=
        ⟨fun hmem => (List.mem_cons.1 hmem).resolve_left (List.cons_ne_nil x s), List.mem_cons_of_mem _⟩
      have hparent : (x :: s = [] ∨ (x :: s).dropLast ∈ [] :: W) ↔ s = [] ∨ x :: s.dropLast ∈ W := by
        cases s with
        | nil => exact iff_of_true (.inr List.mem_cons_self) (.inl rfl)
        | cons y s =>
          rw [List.dropLast_cons_of_ne_nil (List.cons_ne_nil y s), List.mem_cons]
          simp
      change x :: s ∈ [] :: W ↔ (x :: s = [] ∨ (x :: s).dropLast ∈ [] :: W) ∧ _
      rw [hin, h.mem_iff x hs.1 s hs.2, hparent, List.mem_append, List.mem_singleton, not_or]
      refine and_congr_right (fun _ => ?_)
      constructor
      · rintro ⟨⟨htaken, hself⟩, hbefore⟩
        refine ⟨htaken, fun t ht => ?_⟩
        rcases List.mem_cons.1 ht with rfl | ht
        · rw [List.append_nil]
          exact fun _ heq => hself heq.symm
        · exact hbefore t ht
      · rintro ⟨htaken, hbefore⟩
        refine ⟨⟨htaken, fun hself => ?_⟩, fun t ht => hbefore t (List.mem_cons_of_mem _ ht)⟩
        refine hbefore [] List.mem_cons_self (List.cons_ne_nil x s) ?_
        rw [List.append_nil, hself]

theorem FirstComeIn.cons_mem_append (h : FirstComeIn entries key a xs taken V) (hx : x ∉ xs) {s : List ν} :
    x :: s ∈ W.map (x :: ·) ++ V ↔ s ∈ W := by
  rw [List.mem_append, List.mem_map]
  constructor
  · rintro (⟨s', hs', heq⟩ | hV)
    · exact (List.cons.inj heq).2 ▸ hs'
    · obtain ⟨y, hy, s', heq, -⟩ := h.listed _ hV
      exact (hx ((List.cons.inj heq).1 ▸ hy)).elim
  · exact fun hs => .inl ⟨s, hs, rfl⟩

theorem cons_mem_append_of_ne {y : ν} (hne : x ≠ y) {s : List ν} : y :: s ∈ W.map (x :: ·) ++ V ↔ y :: s ∈ V := by
  rw [List.mem_append, List.mem_map]
  refine or_iff_right ?_
  rintro ⟨s', -, heq⟩
  exact hne (List.cons.inj heq).1

variable (hnodup : ∀ a, (entries a).Nodup)
include hnodup

theorem FirstComeIn.cons {before : List ν} (hsplit : entries a = before ++ x :: xs)
    (hfst : FirstCome entries key (a ++ [x]) taken {s | s ∈ W})
    (hrest : FirstComeIn entries key a xs (taken ++ W.map (fun s => key (a ++ [x] ++ s))) V) :
    FirstComeIn entries key a (x :: xs) taken (W.map (x :: ·) ++ V) := by
  have hx : ∀ y ∈ xs, Earlier (entries a) x y := fun y hy => earlier_of_split hsplit hy
  have hout : x ∉ xs := fun hmem => (hx x hmem).irrefl (hnodup a)
  have hkey (y : ν) (t : List ν) : key (a ++ [y] ++ t) = key (a ++ y :: t) := by rw [← List.append_cons]
  refine ⟨fun s hs => ?_, fun y hy s hs => ?_⟩
  · rcases List.mem_append.1 hs with hs | hs
    · obtain ⟨s', hs', rfl⟩ := List.mem_map.1 hs
      exact ⟨x, List.mem_cons_self, s', rfl, hfst.listed s' hs'⟩
    · obtain ⟨y, hy, s', heq, hs'⟩ := hrest.listed s hs
      exact ⟨y, List.mem_cons_of_mem x hy, s', heq, hs'⟩
  · rcases List.mem_cons.1 hy with rfl | hy
    · have hs' := hfst.mem_iff s hs
      simp only [hkey] at hs'
      rw [hrest.cons_mem_append hout, hrest.cons_mem_append hout]
      refine hs'.trans (and_congr_right (fun _ => and_congr_right (fun _ => ?_)))
      constructor
      · intro hbefore t ht hts
        rcases List.mem_append.1 ht with ht | ht
        · obtain ⟨t', ht', rfl⟩ := List.mem_map.1 ht
          exact hbefore t' ht' ((before_cons_iff hnodup).1 hts)
        -- the words of the entries after it are not met before
        · obtain ⟨z, hz, t', rfl, -⟩ := hrest.listed t ht
          rcases hts with ⟨rfl, -⟩ | hts
          · exact (hout hz).elim
          · exact (((hx z hz).trans (hnodup a) hts).irrefl (hnodup a)).elim
      · intro hbefore t ht hts
        exact hbefore (y :: t) ((hrest.cons_mem_append hout).2 ht) ((before_cons_iff hnodup).2 hts)
    · have hne : x ≠ y := fun heq => hout (heq ▸ hy)
      rw [cons_mem_append_of_ne hne, cons_mem_append_of_ne hne, hrest.mem_iff y hy s hs, List.mem_append, not_or]
      refine and_congr_right (fun _ => ?_)
      constructor
      · rintro ⟨⟨htaken, hfresh⟩, hbefore⟩
        refine ⟨htaken, fun t ht hts heq => ?_⟩
        rcases List.mem_append.1 ht with ht | ht
        · obtain ⟨t', ht', rfl⟩ := List.mem_map.1 ht
          exact hfresh (List.mem_map.2 ⟨t', ht', (hkey x t').trans heq⟩)
        · exact hbefore t ht hts heq
      · rintro ⟨htaken, hbefore⟩
        refine ⟨⟨htaken, fun hmem => ?_⟩, fun t ht => hbefore t (List.mem_append_right _ ht)⟩
        obtain ⟨t, ht, heq⟩ := List.mem_map.1 hmem
        exact hbefore (x :: t) ((hrest.cons_mem_append hout).2 ht) (.inr (hx y hy)) ((hkey x t).symm.trans heq)

/-- The entries one after the other, if what is gone below from each comes first with its key. -/
theorem FirstComeIn.of_foldlM {explored : List (List ν) → ν → Option (List (List ν))}
    (hexplored : ∀ x visited v, explored visited x = some v → ∃ W : List (List ν),
      v = visited ++ W.map (a ++ [x] ++ ·) ∧ FirstCome entries key (a ++ [x]) (visited.map key) {s | s ∈ W}) :
    ∀ (before xs : List ν) {visited v : List (List ν)}, entries a = before ++ xs →
      xs.foldlM explored visited = some v →
      ∃ W : List (List ν), v = visited ++ W.map (a ++ ·) ∧ FirstComeIn entries key a xs (visited.map key) W
  | _, [], visited, v, _, hv => by
    obtain rfl := Option.some.inj hv
    exact ⟨[], (List.append_nil _).symm, firstComeIn_nil⟩
  | before, x :: xs, visited, v, hsplit, hv => by
    rw [List.foldlM_cons] at hv
    obtain ⟨v', hv', hv⟩ := Option.bind_eq_some_iff.1 hv
    obtain ⟨W, rfl, hW⟩ := hexplored x visited v' hv'
    obtain ⟨V, rfl, hV⟩ := FirstComeIn.of_foldlM hexplored (before ++ [x]) xs (by rw [hsplit, List.append_cons]) hv
    refine ⟨W.map (x :: ·) ++ V, ?_, FirstComeIn.cons hnodup hsplit hW ?_⟩
    · simp
    · simpa [Function.comp_def] using hV

/-- **What the search goes below comes first with its key.** -/
theorem explore_firstCome [DecidableEq κ] : ∀ {n : Nat} {a : List ν} {visited v : List (List ν)},
    explore entries key n a visited = some v →
    ∃ W : List (List ν), v = visited ++ W.map (a ++ ·) ∧ FirstCome entries key a (visited.map key) {s | s ∈ W}
  | 0, _, _, _, h => by cases h
  | n + 1, a, visited, v, h => by
    rw [explore] at h
    split at h
    next hmem =>
      obtain rfl := Option.some.inj h
      exact ⟨[], (List.append_nil _).symm, firstCome_of_taken hmem⟩
    next hmem =>
      obtain ⟨W, rfl, hW⟩ := FirstComeIn.of_foldlM hnodup (fun x visited v hv => explore_firstCome hv) []
        (entries a) rfl h
      refine ⟨[] :: W, ?_, FirstComeIn.firstCome hmem ?_⟩
      · simp
      · simpa using hW

theorem exists_firstCome [DecidableEq κ] {K : List κ} (hK : ∀ s, key s ∈ K) (a : List ν) :
    ∃ S, S.Finite ∧ FirstCome entries key a [] S := by
  have hleft : left key K [] < K.length + 1 := Nat.lt_succ_of_le List.countP_le_length
  obtain ⟨v, hv, -⟩ := explore_ends hK a hleft List.nodup_nil
  obtain ⟨W, -, hW⟩ := explore_firstCome hnodup hv
  exact ⟨_, W.finite_toSet, hW⟩

end Below

/-! ## The search -/

section Goal

variable [DecidableEq κ]

variable (entries goal) in
/-- The result of a search from some words that goes below those of `v` if there is no goal. -/
def Outcome (starts visited v : List (List ν)) : Option (Bool × List (List ν)) → Prop
  | none => False
  | some (true, u) => u <+: v ∧
      ((∃ s ∈ starts, goal s = true) ∨ ∃ s ∈ v, ∃ x ∈ entries s, goal (s ++ [x]) = true)
  | some (false, u) => u = v ∧ (∀ s ∈ starts, goal s = false) ∧
      ∀ s ∈ v, s ∈ visited ∨ ∀ x ∈ entries s, goal (s ++ [x]) = false

namespace Outcome

variable {a s : List ν} {starts visited v u : List (List ν)} {r : Option (Bool × List (List ν))}

/-- The goal is not met from one word, and the search goes on with others. -/
theorem cons (hfst : Outcome entries goal [s] visited u (some (false, u))) (hrest : Outcome entries goal starts u v r) :
    Outcome entries goal (s :: starts) visited v r := by
  obtain ⟨-, hstart, hbelow⟩ := hfst
  match r with
  | none => exact hrest
  | some (true, u') => exact ⟨hrest.1, hrest.2.imp_left (fun ⟨t, ht, hgoal⟩ => ⟨t, List.mem_cons_of_mem _ ht, hgoal⟩)⟩
  | some (false, u') =>
    obtain ⟨rfl, hstarts, hrest⟩ := hrest
    refine ⟨rfl, fun t ht => ?_, fun t ht => ?_⟩
    · rcases List.mem_cons.1 ht with rfl | ht
      · exact hstart _ List.mem_cons_self
      · exact hstarts t ht
    · exact (hrest t ht).elim (hbelow t) .inr

/-- The search below a word without the goal. -/
theorem below (hstart : goal a = false) (ha : a ∈ v)
    (h : Outcome entries goal ((entries a).map (fun x => a ++ [x])) (visited ++ [a]) v r) :
    Outcome entries goal [a] visited v r := by
  match r with
  | none => exact h
  | some (true, u) =>
    refine ⟨h.1, .inr (h.2.elim ?_ id)⟩
    rintro ⟨t, ht, hgoal⟩
    obtain ⟨x, hx, rfl⟩ := List.mem_map.1 ht
    exact ⟨a, ha, x, hx, hgoal⟩
  | some (false, u) =>
    obtain ⟨rfl, hstarts, hbelow⟩ := h
    refine ⟨rfl, fun t ht => List.mem_singleton.1 ht ▸ hstart, fun t ht => ?_⟩
    rcases hbelow t ht with hvisited | hmissed
    · rcases List.mem_append.1 hvisited with hvisited | hself
      · exact .inl hvisited
      · rw [List.mem_singleton.1 hself]
        exact .inr (fun x hx => hstarts _ (List.mem_map_of_mem hx))
    · exact .inr hmissed

/-- The entries one after the other, up to the first from which the goal is met. -/
theorem searchIn {rec : List ν → List (List ν) → Option (Bool × List (List ν))}
    {explored : List (List ν) → ν → Option (List (List ν))}
    (hlonger : ∀ visited x v, explored visited x = some v → visited <+: v)
    (hrec : ∀ visited x v, explored visited x = some v →
      Outcome entries goal [a ++ [x]] visited v (rec (a ++ [x]) visited)) :
    ∀ {xs : List ν} {visited v : List (List ν)}, xs.foldlM explored visited = some v →
      Outcome entries goal (xs.map (fun x => a ++ [x])) visited v (searchIn rec a xs visited)
  | [], visited, v, h => by
    obtain rfl := Option.some.inj h
    exact ⟨rfl, fun s hs => (List.not_mem_nil hs).elim, fun s hs => .inl hs⟩
  | x :: xs, visited, v, h => by
    rw [List.foldlM_cons] at h
    obtain ⟨v', hv', h⟩ := Option.bind_eq_some_iff.1 h
    have hfst := hrec visited x v' hv'
    have hsub : v' <+: v := foldlM_longer hlonger h
    unfold KeyedSearch.searchIn
    split
    next hnone =>
      rw [hnone] at hfst
      exact hfst
    next u hfound =>
      rw [hfound] at hfst
      refine ⟨hfst.1.trans hsub, hfst.2.imp ?_ ?_⟩
      · rintro ⟨s, hs, hgoal⟩
        exact ⟨s, List.mem_singleton.1 hs ▸ List.mem_cons_self, hgoal⟩
      · rintro ⟨s, hs, hgoal⟩
        exact ⟨s, hsub.subset hs, hgoal⟩
    next u hmissed =>
      rw [hmissed] at hfst
      obtain rfl := hfst.1
      exact hfst.cons (searchIn hlonger hrec h)

end Outcome

/-- **The search finds the goal where the search without one goes.** -/
theorem search_outcome : ∀ {n : Nat} {a : List ν} {visited v : List (List ν)},
    explore entries key n a visited = some v →
    Outcome entries goal [a] visited v (search entries key goal n a visited)
  | 0, _, _, _, h => by cases h
  | n + 1, a, visited, v, h => by
    have hlonger := explore_longer h
    rw [explore] at h
    rw [search]
    split
    next hgoal => exact ⟨hlonger, .inl ⟨a, List.mem_cons_self, hgoal⟩⟩
    next hgoal =>
      rw [Bool.not_eq_true] at hgoal
      split at h
      next hmem =>
        obtain rfl := Option.some.inj h
        rw [if_pos hmem]
        exact ⟨rfl, fun s hs => List.mem_singleton.1 hs ▸ hgoal, fun s hs => .inl hs⟩
      next hmem =>
        rw [if_neg hmem]
        have hsub : visited ++ [a] <+: v := foldlM_longer (fun _ _ _ => explore_longer) h
        exact Outcome.below hgoal (hsub.subset (List.mem_append_right _ List.mem_cons_self))
          (Outcome.searchIn (fun _ _ _ => explore_longer) (fun _ _ _ => search_outcome) h)

variable (entries key goal) in
/-- **What a search does** if there are finitely many keys: it ends, goes below no two words with one key, and finds
the goal if and only if it is met where the words come first with their key. -/
theorem search_spec (hnodup : ∀ a, (entries a).Nodup) (K : List κ) (hK : ∀ s, key s ∈ K) (a : List ν) {n : Nat}
    (hn : K.length < n) :
    ∃ r : Bool × List (List ν), search entries key goal n a [] = some r ∧ (r.2.map key).Nodup ∧
      (r.1 = true ↔ ∃ S, FirstCome entries key a [] S ∧ Meets entries goal a S) := by
  have hleft : left key K [] < n := Nat.lt_of_le_of_lt List.countP_le_length hn
  obtain ⟨v, hv, hkeys⟩ := explore_ends hK a hleft List.nodup_nil
  obtain ⟨W, hW, hfirst⟩ := explore_firstCome hnodup hv
  obtain rfl : v = W.map (a ++ ·) := hW
  have hunique : (∃ S, FirstCome entries key a [] S ∧ Meets entries goal a S) ↔ Meets entries goal a {s | s ∈ W} := by
    constructor
    · rintro ⟨S, hS, hmeets⟩
      rwa [← FirstCome.unique hnodup hS hfirst W.finite_toSet]
    · exact fun h => ⟨_, hfirst, h⟩
  have hmeets : Meets entries goal a {s | s ∈ W} ↔
      goal a = true ∨ ∃ s ∈ W.map (a ++ ·), ∃ x ∈ entries s, goal (s ++ [x]) = true := by
    simp [Meets]
  have houtcome : Outcome entries goal _ _ _ _ := search_outcome hv
  rw [hunique, hmeets]
  match hr : search entries key goal n a [], houtcome with
  | some (true, u), ⟨hshort, hfound⟩ =>
    refine ⟨(true, u), rfl, (hshort.map key).sublist.nodup hkeys, iff_of_true rfl (hfound.imp_left ?_)⟩
    rintro ⟨s, hs, hgoal⟩
    exact List.mem_singleton.1 hs ▸ hgoal
  | some (false, u), ⟨hu, hstart, hbelow⟩ =>
    refine ⟨(false, u), rfl, hu ▸ hkeys, iff_of_false Bool.false_ne_true ?_⟩
    rintro (hgoal | ⟨s, hs, x, hx, hgoal⟩)
    · rw [hstart a List.mem_cons_self] at hgoal
      cases hgoal
    · rw [(hbelow s hs).resolve_left List.not_mem_nil x hx] at hgoal
      cases hgoal

end Goal

end KeyedSearch
