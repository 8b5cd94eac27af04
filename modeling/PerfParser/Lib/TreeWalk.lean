import Mathlib.Data.List.Nodup
/-!
# TreeWalk — walks over trees that a callback directs

A forest by its links: the root of its first tree, the children of that and its siblings.  A callback is called for
trees from the top down and says each time whether to go on below the tree, to go on after it, or to stop.  If that
depends on the tree alone, the walk is a loop over the trees it reaches, in preorder, up to the first it stops at
(`Subtree.walk_eq`).  Where no two trees are alike those are the trees with no other above them than such it goes on
below (`Forest.reached_eq_filter`).
-/

namespace TreeWalk

inductive Forest (α : Type)
  | nil
  | tree (root : α) (children siblings : Forest α)
deriving DecidableEq, Repr

structure Subtree (α : Type) where
  root : α
  children : Forest α
deriving DecidableEq, Repr

inductive WalkResult
  | recurse
  | skip
  | stop
deriving DecidableEq, Repr

variable {α σ : Type}

/-- All trees of the forest, in preorder. -/
def Forest.nodes : Forest α → List (Subtree α)
  | nil => []
  | tree root children siblings => ⟨root, children⟩ :: (children.nodes ++ siblings.nodes)

namespace Subtree

def below (t : Subtree α) : List (Subtree α) := t.children.nodes

def nodes (t : Subtree α) : List (Subtree α) := t :: t.below

end Subtree

/-! ## Walks -/

def Forest.walk (callback : Subtree α → σ → WalkResult × σ) : Forest α → σ → WalkResult × σ
  | nil, s => (.skip, s)
  | tree root children siblings, s =>
    match (match callback ⟨root, children⟩ s with
      | (.recurse, s) => children.walk callback s
      | result => result) with
    | (.stop, s) => (.stop, s)
    | (_, s) => siblings.walk callback s

def Subtree.walk (callback : Subtree α → σ → WalkResult × σ) (t : Subtree α) (s : σ) : WalkResult × σ :=
  match callback t s with
  | (.recurse, s) => t.children.walk callback s
  | result => result

/-- The trees that a walk which does not stop calls the callback for. -/
def Forest.reached (result : Subtree α → WalkResult) : Forest α → List (Subtree α)
  | nil => []
  | tree root children siblings =>
    ⟨root, children⟩ ::
      ((if result ⟨root, children⟩ = .recurse then children.reached result else []) ++ siblings.reached result)

def Subtree.reached (result : Subtree α → WalkResult) (t : Subtree α) : List (Subtree α) :=
  t :: (if result t = .recurse then t.children.reached result else [])

/-- The elements up to the first that has a property, with that. -/
def upTo (p : α → Bool) : List α → List α
  | [] => []
  | a :: l => if p a then [a] else a :: upTo p l

theorem upTo_append (p : α → Bool) : ∀ l l' : List α,
    upTo p (l ++ l') = if l.any p then upTo p l else l ++ upTo p l'
  | [], _ => rfl
  | a :: l, l' => by
    rw [List.cons_append, upTo, upTo, upTo_append p l l', List.any_cons]
    cases p a with
    | true => rfl
    | false =>
      simp only [Bool.false_eq_true, if_false, Bool.false_or]
      split <;> rfl

theorem upTo_of_not_any {p : α → Bool} : ∀ {l : List α}, l.any p = false → upTo p l = l
  | [], _ => rfl
  | a :: l, h => by
    rw [List.any_cons, Bool.or_eq_false_iff] at h
    rw [upTo, h.1, upTo_of_not_any h.2]
    rfl

variable (result : Subtree α → WalkResult) (update : σ → Subtree α → σ)

/-- What a walk ends with that called the callback for the trees of a list. -/
def loopOver (l : List (Subtree α)) (s : σ) : WalkResult × σ :=
  (if l.any (fun t => result t = .stop) then .stop else .skip, (upTo (fun t => result t = .stop) l).foldl update s)

theorem loopOver_cons (t : Subtree α) (l : List (Subtree α)) (s : σ) : loopOver result update (t :: l) s =
    if result t = .stop then (.stop, update s t) else loopOver result update l (update s t) := by
  unfold loopOver
  rw [List.any_cons, upTo]
  by_cases ht : result t = .stop
  · simp only [ht, decide_true, Bool.true_or, if_true, List.foldl_cons, List.foldl_nil]
  · simp only [ht, decide_false, Bool.false_or, if_false, Bool.false_eq_true, List.foldl_cons]

theorem loopOver_append (l l' : List (Subtree α)) (s : σ) : loopOver result update (l ++ l') s =
    if l.any (fun t => result t = .stop) then loopOver result update l s
    else loopOver result update l' (l.foldl update s) := by
  unfold loopOver
  rw [List.any_append, upTo_append]
  cases hl : l.any (fun t => decide (result t = .stop)) with
  | true => rfl
  | false => simp only [Bool.false_or, Bool.false_eq_true, if_false, List.foldl_append]

theorem loopOver_of_not_any {l : List (Subtree α)} (h : l.any (fun t => result t = .stop) = false) (s : σ) :
    loopOver result update l s = (.skip, l.foldl update s) := by
  rw [loopOver, h, upTo_of_not_any h]
  rfl

/-- **A walk is a loop over the trees it reaches.** -/
theorem Forest.walk_eq : ∀ (f : Forest α) (s : σ),
    f.walk (fun t s => (result t, update s t)) s = loopOver result update (f.reached result) s
  | nil, _ => rfl
  | tree root children siblings, s => by
    have hsiblings := Forest.walk_eq siblings
    rw [Forest.walk, Forest.reached, loopOver_cons]
    cases hroot : result ⟨root, children⟩ with
    | recurse =>
      dsimp only
      rw [if_neg (by decide), if_pos rfl, loopOver_append, Forest.walk_eq children]
      cases hany : (children.reached result).any (fun t => decide (result t = .stop)) with
      | true =>
        rw [loopOver, hany]
        rfl
      | false =>
        rw [loopOver_of_not_any result update hany]
        exact hsiblings _
    | skip => exact hsiblings _
    | stop => rfl

theorem Subtree.walk_eq (t : Subtree α) (s : σ) :
    t.walk (fun t s => (result t, update s t)) s = loopOver result update (t.reached result) s := by
  rw [Subtree.walk, Subtree.reached, loopOver_cons]
  cases hroot : result t with
  | recurse => exact Forest.walk_eq result update t.children _
  | skip => rfl
  | stop => rfl

variable {result}

theorem Subtree.walk_eq_foldl (h : ∀ t, result t ≠ .stop) (t : Subtree α) (s : σ) :
    t.walk (fun t s => (result t, update s t)) s = (.skip, (t.reached result).foldl update s) := by
  rw [Subtree.walk_eq, loopOver_of_not_any]
  exact List.any_eq_false.2 (fun t _ => by simp [h t])

theorem foldl_collect {β : Type} (p : Subtree α → Bool) (f : Subtree α → β) : ∀ (l : List (Subtree α)) (s : List β),
    l.foldl (fun s t => if p t then s ++ [f t] else s) s = s ++ (l.filter p).map f
  | [], s => (List.append_nil s).symm
  | t :: l, s => by
    rw [List.foldl_cons, foldl_collect p f l, List.filter_cons]
    split
    · rw [List.append_assoc]
      rfl
    · rfl

/-- **What a walk collects** that never stops. -/
theorem Subtree.walk_collect {β : Type} (h : ∀ t, result t ≠ .stop) (p : Subtree α → Bool) (f : Subtree α → β)
    (t : Subtree α) (s : List β) : (t.walk (fun t s => (result t, if p t then s ++ [f t] else s)) s).2 =
      s ++ ((t.reached result).filter p).map f := by
  rw [Subtree.walk_eq_foldl (fun (s : List β) t => if p t then s ++ [f t] else s) h]
  exact foldl_collect p f _ s

/-! ## Trees below trees -/

namespace Forest

theorem below_subset : ∀ {f : Forest α} {t u : Subtree α}, t ∈ f.nodes → u ∈ t.below → u ∈ f.nodes
  | tree root children siblings, t, u, ht, hu => by
    rcases List.mem_cons.1 ht with rfl | ht
    · exact List.mem_cons_of_mem _ (List.mem_append_left _ hu)
    · refine List.mem_cons_of_mem _ (List.mem_append.2 ?_)
      rcases List.mem_append.1 ht with ht | ht
      · exact .inl (below_subset ht hu)
      · exact .inr (below_subset ht hu)

theorem nodes_sublist : ∀ {f : Forest α} {t : Subtree α}, t ∈ f.nodes → t.nodes.Sublist f.nodes
  | tree root children siblings, t, ht => by
    rcases List.mem_cons.1 ht with rfl | ht
    · exact (List.sublist_append_left children.nodes siblings.nodes).cons_cons _
    · rcases List.mem_append.1 ht with ht | ht
      · exact ((nodes_sublist ht).trans (List.sublist_append_left _ _)).cons _
      · exact ((nodes_sublist ht).trans (List.sublist_append_right _ _)).cons _

end Forest

theorem Subtree.nodes_sublist {t u : Subtree α} (hu : u ∈ t.nodes) : u.nodes.Sublist t.nodes := by
  rcases List.mem_cons.1 hu with rfl | hu
  · exact List.Sublist.refl _
  · exact (Forest.nodes_sublist hu).cons _

namespace Forest

/-- Where no two trees are alike, the first one is below none, and those below it are none of the others. -/
theorem nodup_tree {root : α} {children siblings : Forest α} (h : (tree root children siblings).nodes.Nodup) :
    ⟨root, children⟩ ∉ children.nodes ∧ ⟨root, children⟩ ∉ siblings.nodes ∧ children.nodes.Nodup ∧
      siblings.nodes.Nodup ∧ ∀ t ∈ children.nodes, t ∉ siblings.nodes := by
  rw [nodes, List.nodup_cons, List.mem_append, not_or, List.nodup_append'] at h
  exact ⟨h.1.1, h.1.2, h.2.1, h.2.2.1, fun t ht ht' => h.2.2.2 ht ht'⟩

theorem nodes_pairwise : ∀ {f : Forest α}, f.nodes.Nodup → f.nodes.Pairwise (fun t u => t ∉ u.below)
  | nil, _ => List.Pairwise.nil
  | tree root children siblings, h => by
    obtain ⟨hroot, hroot', hchildren, hsiblings, hapart⟩ := nodup_tree h
    refine List.pairwise_cons.2 ⟨fun u hu hbelow => ?_, List.pairwise_append.2 ⟨nodes_pairwise hchildren,
      nodes_pairwise hsiblings, fun t ht u hu hbelow => hapart t ht (below_subset hu hbelow)⟩⟩
    rcases List.mem_append.1 hu with hu | hu
    · exact hroot (below_subset hu hbelow)
    · exact hroot' (below_subset hu hbelow)

/-- **Trees of which any two are one below the other** are each below all before. -/
theorem chain_of_comparable {f : Forest α} (h : f.nodes.Nodup) {l : List (Subtree α)} (hl : l.Sublist f.nodes)
    (hcomparable : ∀ t ∈ l, ∀ u ∈ l, t ≠ u → u ∈ t.below ∨ t ∈ u.below) : l.Pairwise (fun t u => u ∈ t.below) := by
  have hne : l.Pairwise (· ≠ ·) := h.sublist hl
  refine List.Pairwise.imp_of_mem ?_ (hne.and ((nodes_pairwise h).sublist hl))
  rintro t u ht hu ⟨hne, hafter⟩
  exact (hcomparable t ht u hu hne).resolve_right hafter

/-- A walk goes on below all that is above the tree. -/
def Leads (result : Subtree α → WalkResult) (f : Forest α) (t : Subtree α) : Prop :=
  ∀ a ∈ f.nodes, t ∈ a.below → result a = .recurse

instance [DecidableEq α] (result : Subtree α → WalkResult) (f : Forest α) (t : Subtree α) :
    Decidable (Leads result f t) :=
  inferInstanceAs (Decidable (∀ _ ∈ _, _))

section

variable {result : Subtree α → WalkResult} {root : α} {children siblings : Forest α}

theorem leads_root (h : (tree root children siblings).nodes.Nodup) :
    Leads result (tree root children siblings) ⟨root, children⟩ := by
  obtain ⟨hroot, hroot', -⟩ := nodup_tree h
  intro a ha hbelow
  rcases List.mem_cons.1 ha with rfl | ha
  · exact absurd hbelow hroot
  · rcases List.mem_append.1 ha with ha | ha
    · exact absurd (below_subset ha hbelow) hroot
    · exact absurd (below_subset ha hbelow) hroot'

/-- Above a tree below the first one are that one and those below it. -/
theorem leads_of_child (h : (tree root children siblings).nodes.Nodup) {t : Subtree α} (ht : t ∈ children.nodes) :
    Leads result (tree root children siblings) t ↔ result ⟨root, children⟩ = .recurse ∧ Leads result children t := by
  obtain ⟨-, -, -, -, hapart⟩ := nodup_tree h
  constructor
  · exact fun hall => ⟨hall _ List.mem_cons_self ht,
      fun a ha => hall a (List.mem_cons_of_mem _ (List.mem_append_left _ ha))⟩
  · rintro ⟨hfirst, hall⟩ a ha hbelow
    rcases List.mem_cons.1 ha with rfl | ha
    · exact hfirst
    · rcases List.mem_append.1 ha with ha | ha
      · exact hall a ha hbelow
      · exact absurd (below_subset ha hbelow) (hapart t ht)

theorem leads_of_sibling (h : (tree root children siblings).nodes.Nodup) {t : Subtree α} (ht : t ∈ siblings.nodes) :
    Leads result (tree root children siblings) t ↔ Leads result siblings t := by
  obtain ⟨-, -, -, -, hapart⟩ := nodup_tree h
  constructor
  · exact fun hall a ha => hall a (List.mem_cons_of_mem _ (List.mem_append_right _ ha))
  · intro hall a ha hbelow
    rcases List.mem_cons.1 ha with rfl | ha
    · exact absurd ht (hapart t hbelow)
    · rcases List.mem_append.1 ha with ha | ha
      · exact absurd ht (hapart t (below_subset ha hbelow))
      · exact hall a ha hbelow

end

/-- **The trees that are reached**, where no two are alike: those with only trees above them to go on below. -/
theorem reached_eq_filter [DecidableEq α] (result : Subtree α → WalkResult) : ∀ {f : Forest α}, f.nodes.Nodup →
    f.reached result = f.nodes.filter (Leads result f)
  | nil, _ => rfl
  | tree root children siblings, h => by
    obtain ⟨-, -, hchildren, hsiblings, -⟩ := nodup_tree h
    have hbelow : children.nodes.filter (Leads result (tree root children siblings)) =
        children.nodes.filter (fun t => result ⟨root, children⟩ = .recurse ∧ Leads result children t) :=
      List.filter_congr (fun t ht => decide_eq_decide.2 (leads_of_child h ht))
    have hbehind : siblings.nodes.filter (Leads result (tree root children siblings)) =
        siblings.nodes.filter (Leads result siblings) :=
      List.filter_congr (fun t ht => decide_eq_decide.2 (leads_of_sibling h ht))
    rw [reached, nodes, List.filter_cons, if_pos (decide_eq_true (leads_root h)), List.filter_append, hbelow, hbehind,
      reached_eq_filter result hchildren, reached_eq_filter result hsiblings]
    by_cases hrecurse : result ⟨root, children⟩ = .recurse
    · simp only [hrecurse, if_true, true_and]
    · simp only [hrecurse, if_false, false_and, decide_false, List.filter_false]

end Forest

theorem Subtree.reached_eq_filter [DecidableEq α] (result : Subtree α → WalkResult) {t : Subtree α}
    (h : t.nodes.Nodup) :
    t.reached result = t.nodes.filter (fun u => ∀ a ∈ t.nodes, u ∈ a.below → result a = .recurse) := by
  have hnodes : (Forest.tree t.root t.children .nil).nodes = t.nodes := by
    rw [Forest.nodes, Forest.nodes, List.append_nil]
    rfl
  have hreached : (Forest.tree t.root t.children .nil).reached result = t.reached result := by
    rw [Forest.reached, Forest.reached, List.append_nil]
    rfl
  have hfilter := Forest.reached_eq_filter result (hnodes ▸ h)
  unfold Forest.Leads at hfilter
  simp only [hnodes, hreached] at hfilter
  exact hfilter

end TreeWalk
