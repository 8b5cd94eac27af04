import Mathlib.Data.List.Basic
import Mathlib.Data.List.Chain
import Mathlib.Data.List.Induction
import Mathlib.Data.List.Infix
import Mathlib.Logic.Relation
/-!
# History — properties of every point of a growing log

A log grows at its end, one entry at a time.  `Always P l` says of every entry of `l` what `P` asks of it and of the
entries before it; `always_snoc` is the induction step of every proof about it.
-/
namespace History

variable {α : Type} {P Q : List α → α → Prop}

/-- `P` holds of every entry of `l` and the entries before it. -/
def Always (P : List α → α → Prop) (l : List α) : Prop := ∀ pre x post, l = pre ++ x :: post → P pre x

theorem always_nil : Always P [] := fun pre x post h => by cases pre <;> cases h

/-- An entry of a log that grew by one is the new one or an old one. -/
theorem split_snoc {l pre post : List α} {a x : α} (h : l ++ [a] = pre ++ x :: post) :
    (pre = l ∧ x = a ∧ post = []) ∨ ∃ post', post = post' ++ [a] ∧ l = pre ++ x :: post' := by
  rcases List.eq_nil_or_concat post with rfl | ⟨post', b, rfl⟩
  · obtain ⟨rfl, hx⟩ := List.append_inj' h rfl
    exact .inl ⟨rfl, (List.cons.inj hx).1.symm, rfl⟩
  · rw [List.concat_eq_append, ← List.cons_append, ← List.append_assoc] at h
    obtain ⟨rfl, hb⟩ := List.append_inj' h rfl
    rw [List.concat_eq_append, (List.cons.inj hb).1]
    exact .inr ⟨post', rfl, rfl⟩

theorem always_snoc {l : List α} {a : α} : Always P (l ++ [a]) ↔ Always P l ∧ P l a := by
  constructor
  · intro h
    exact ⟨fun pre x post hl => h pre x (post ++ [a]) (by rw [hl]; simp), h l a [] rfl⟩
  · rintro ⟨h, ha⟩ pre x post hl
    rcases split_snoc hl with ⟨rfl, rfl, -⟩ | ⟨post', -, hl⟩
    · exact ha
    · exact h pre x post' hl

theorem always_cons {l : List α} {a : α} : Always P (a :: l) ↔ P [] a ∧ Always (fun pre => P (a :: pre)) l := by
  constructor
  · intro h
    exact ⟨h [] a l rfl, fun pre x post hl => h (a :: pre) x post (congrArg (a :: ·) hl)⟩
  · rintro ⟨ha, h⟩ pre x post hl
    cases pre with
    | nil =>
      obtain ⟨rfl, -⟩ := List.cons.inj hl
      exact ha
    | cons b pre =>
      obtain ⟨rfl, rfl⟩ := List.cons.inj hl
      exact h pre x post rfl

/-- A property of the entries of a log can be checked entry by entry. -/
instance [∀ pre x, Decidable (P pre x)] (l : List α) : Decidable (Always P l) :=
  decidable_of_iff (∀ i : Fin l.length, P (l.take i) (l.get i)) (by
    constructor
    · rintro h pre x post rfl
      simpa using h ⟨pre.length, by simp⟩
    · intro h i
      exact h _ _ (l.drop (i + 1)) (by simp))

theorem Always.mono {l : List α} (h : Always P l) (hPQ : ∀ pre x post, l = pre ++ x :: post → P pre x → Q pre x) :
    Always Q l := fun pre x post hl => hPQ pre x post hl (h pre x post hl)

/-- A property of every entry of a log holds of every entry of its prefixes. -/
theorem Always.of_prefix {l l' : List α} (h : Always P l') (hp : l <+: l') : Always P l := by
  obtain ⟨t, rfl⟩ := hp
  exact fun pre x post hl => h pre x (post ++ t) (by rw [hl]; simp)

/-- The entries a log grew by keep what held of the log. -/
theorem always_append {l : List α} : ∀ {m : List α}, Always P l →
    (∀ pre x post, m = pre ++ x :: post → P (l ++ pre) x) → Always P (l ++ m)
  | [], h, _ => by rwa [List.append_nil]
  | a :: m, h, hm => by
    have hstep : Always P (l ++ [a]) := always_snoc.2 ⟨h, by simpa using hm [] a m rfl⟩
    have := always_append (m := m) hstep (fun pre x post hl => by
      have := hm (a :: pre) x post (by rw [hl]; rfl)
      simpa using this)
    simpa using this

/-! ## The states of a run

`f` acts on a state, and the runs of a list of actions end in the states that `foldl` computes. -/

theorem forall_prefix_snoc {R : List α → Prop} {l : List α} {a : α} :
    (∀ pre, pre <+: l ++ [a] → R pre) ↔ (∀ pre, pre <+: l → R pre) ∧ R (l ++ [a]) := by
  constructor
  · intro h
    exact ⟨fun pre hpre => h pre (hpre.trans (List.prefix_append l [a])), h _ (List.prefix_refl _)⟩
  · rintro ⟨h, ha⟩ pre hpre
    rcases List.prefix_concat_iff.1 hpre with rfl | hpre
    · exact ha
    · exact h pre hpre

variable {σ : Type} {f : σ → α → σ}

theorem foldl_invariant {I : σ → Prop} {A : α → Prop} (hstep : ∀ s a, A a → I s → I (f s a)) :
    ∀ (l : List α) (s : σ), (∀ a ∈ l, A a) → I s → I (l.foldl f s)
  | [], _, _, hs => hs
  | a :: l, s, hl, hs =>
    foldl_invariant hstep l (f s a) (fun b hb => hl b (List.mem_cons_of_mem a hb))
      (hstep s a (hl a List.mem_cons_self) hs)

/-- **A property that a step keeps exactly where a condition holds before it** holds at every point of a run exactly
where the condition holds before every step. -/
theorem forall_prefix_iff {I R : σ → Prop} {A : α → Prop} {C : σ → α → Prop}
    (hinv : ∀ s a, A a → I s → I (f s a)) (hstep : ∀ s a, A a → I s → R s → (R (f s a) ↔ C s a))
    {s : σ} (hI : I s) (hR : R s) (l : List α) (hl : ∀ a ∈ l, A a) :
    (∀ pre, pre <+: l → R (pre.foldl f s)) ↔ Always (fun pre a => C (pre.foldl f s) a) l := by
  induction l using List.reverseRecOn with
  | nil =>
    refine iff_of_true (fun pre hpre => ?_) always_nil
    rw [List.prefix_nil.1 hpre]
    exact hR
  | append_singleton l a ih =>
    have ha := hl a (List.mem_append_right l List.mem_cons_self)
    have hl' : ∀ b ∈ l, A b := fun b hb => hl b (List.mem_append_left [a] hb)
    have hlast := hstep (l.foldl f s) a ha (foldl_invariant hinv l s hl' hI)
    rw [forall_prefix_snoc, always_snoc, ← ih hl', List.foldl_append]
    exact and_congr_right fun h => hlast (h l (List.prefix_refl l))

/-! ## Runs with checks

`g` acts like `f` on a state that passes a check, and refuses it otherwise. -/

/-- **A checked run ends where every action passed its check**, in the state of the run without checks. -/
theorem foldlM_eq_some_iff {g : σ → α → Option σ} {C : σ → α → Prop}
    (hg : ∀ s a s', g s a = some s' ↔ C s a ∧ s' = f s a) (s : σ) (l : List α) {s' : σ} :
    l.foldlM g s = some s' ↔ Always (fun pre a => C (pre.foldl f s) a) l ∧ s' = l.foldl f s := by
  induction l using List.reverseRecOn generalizing s' with
  | nil =>
    rw [List.foldlM_nil, List.foldl_nil, and_iff_right always_nil]
    exact ⟨fun h => (Option.some.inj h).symm, fun h => congrArg some h.symm⟩
  | append_singleton l a ih =>
    have hstep : (l ++ [a]).foldlM g s = (l.foldlM g s).bind fun t => g t a := by
      rw [List.foldlM_append]
      exact congrArg _ (funext fun t => Option.bind_fun_some (g t a))
    rw [hstep, Option.bind_eq_some_iff, always_snoc, List.foldl_append]
    constructor
    · rintro ⟨t, ht, ha⟩
      obtain ⟨hl, rfl⟩ := ih.1 ht
      obtain ⟨hC, rfl⟩ := (hg _ _ _).1 ha
      exact ⟨⟨hl, hC⟩, rfl⟩
    · rintro ⟨⟨hl, hC⟩, rfl⟩
      exact ⟨_, ih.2 ⟨hl, rfl⟩, (hg _ _ _).2 ⟨hC, rfl⟩⟩

/-- A value that some actions carry is compared with the last one before it. -/
theorem always_getLastD_iff {β : Type} {e : α → Option β} {R : β → β → Prop} {b : β} (l : List α) :
    Always (fun pre a => ∀ c, e a = some c → R ((pre.filterMap e).getLastD b) c) l ↔
      (b :: l.filterMap e).IsChain R := by
  induction l using List.reverseRecOn with
  | nil => exact iff_of_true always_nil (.singleton b)
  | append_singleton l a ih =>
    rw [always_snoc, ih, List.filterMap_append, ← List.cons_append]
    cases ha : e a with
    | none =>
      rw [List.filterMap_cons_none ha, List.filterMap_nil, List.append_nil]
      exact and_iff_left fun c hc => by cases hc
    | some c =>
      rw [List.filterMap_cons_some ha, List.filterMap_nil, List.isChain_append,
        List.getLast?_cons, List.head?_cons]
      simp

/-- A part of the state that only some actions change, each by what it carries. -/
theorem foldl_filterMap {β τ : Type} {p : σ → τ} {k : τ → β → τ} {e : α → Option β}
    (h : ∀ s a, p (f s a) = (e a).elim (p s) (k (p s))) : ∀ (l : List α) (s : σ),
    p (l.foldl f s) = (l.filterMap e).foldl k (p s)
  | [], _ => rfl
  | a :: l, s => by
    rw [List.foldl_cons, foldl_filterMap h l, h]
    cases ha : e a with
    | none => rw [List.filterMap_cons_none ha]; rfl
    | some b => rw [List.filterMap_cons_some ha]; rfl

end History
