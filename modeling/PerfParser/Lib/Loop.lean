import Mathlib.Data.Nat.Basic
/-!
# Loop — loops that may not end

A loop runs for as many rounds as it is given, and one that needs more of them has no result.  It ends if there is a
number of rounds that is enough.  Most facts about it are about one round: a measure that falls in each
(`Ends.of_measure`), an invariant under which there is always another (`not_ends`), one that holds at any time
(`upTo_invariant`).  What is computed of such loops keeps its result with more fuel (`Grows`), and has none with any only
where one of its steps has none (`foldlM_eq_none_iff`).
-/

namespace Loop

variable {σ : Type} {more : σ → Bool} {body : σ → σ} {s t u : σ}

/-- Where the loop is after as many rounds as there is fuel, or where it ended before. -/
def upTo (more : σ → Bool) (body : σ → σ) : Nat → σ → σ
  | 0, s => s
  | fuel + 1, s => if more s then upTo more body fuel (body s) else s

/-- What it has returned by then. -/
def run (more : σ → Bool) (body : σ → σ) (fuel : Nat) (s : σ) : Option σ :=
  if more (upTo more body fuel s) then none else some (upTo more body fuel s)

/-- The loop comes to an end, in `t`. -/
def Returns (more : σ → Bool) (body : σ → σ) (s t : σ) : Prop := ∃ fuel, run more body fuel s = some t

def Ends (more : σ → Bool) (body : σ → σ) (s : σ) : Prop := ∃ t, Returns more body s t

theorem upTo_of_not (h : more s = false) (fuel : Nat) : upTo more body fuel s = s := by
  cases fuel with
  | zero => rfl
  | succ fuel => rw [upTo, if_neg (ne_true_of_eq_false h)]

theorem upTo_succ (h : more s = true) (fuel : Nat) : upTo more body (fuel + 1) s = upTo more body fuel (body s) := by
  rw [upTo, if_pos h]

theorem run_of_not (h : more s = false) (fuel : Nat) : run more body fuel s = some s := by
  rw [run, upTo_of_not h, if_neg (ne_true_of_eq_false h)]

theorem run_zero (h : more s = true) : run more body 0 s = none := if_pos h

theorem run_succ (h : more s = true) (fuel : Nat) : run more body (fuel + 1) s = run more body fuel (body s) := by
  rw [run, upTo_succ h, run]

/-- What it returns is where it is, and there is no other round. -/
theorem upTo_of_run {fuel : Nat} (h : run more body fuel s = some t) :
    upTo more body fuel s = t ∧ more t = false := by
  rw [run] at h
  split at h
  · cases h
  · rename_i hmore
    rw [← Option.some.inj h]
    exact ⟨rfl, Bool.not_eq_true _ ▸ hmore⟩

theorem returns_of_not (h : more s = false) : Returns more body s s := ⟨0, run_of_not h 0⟩

/-- A loop that goes on returns what it returns after one round. -/
theorem returns_body_iff (h : more s = true) : Returns more body (body s) t ↔ Returns more body s t := by
  constructor
  · rintro ⟨fuel, hrun⟩
    exact ⟨fuel + 1, by rwa [run_succ h]⟩
  · rintro ⟨fuel, hrun⟩
    cases fuel with
    | zero =>
      rw [run_zero h] at hrun
      cases hrun
    | succ fuel => exact ⟨fuel, by rwa [run_succ h] at hrun⟩

theorem ends_of_not (h : more s = false) : Ends more body s := ⟨s, returns_of_not h⟩

theorem ends_body_iff (h : more s = true) : Ends more body (body s) ↔ Ends more body s :=
  exists_congr fun _ => returns_body_iff h

/-- **What each round keeps holds at any time.** -/
theorem upTo_invariant {P : σ → Prop} (hstep : ∀ s, P s → more s = true → P (body s)) :
    ∀ (fuel : Nat) {s : σ}, P s → P (upTo more body fuel s)
  | 0, _, hs => hs
  | fuel + 1, s, hs => by
    cases hmore : more s with
    | false => rwa [upTo_of_not hmore]
    | true =>
      rw [upTo_succ hmore]
      exact upTo_invariant hstep fuel (hstep s hs hmore)

/-- Where the loop ends, it holds as well, and there is no other round. -/
theorem Returns.invariant {P : σ → Prop} (hstep : ∀ s, P s → more s = true → P (body s)) (h : Returns more body s t)
    (hs : P s) : P t ∧ more t = false := by
  obtain ⟨fuel, hrun⟩ := h
  obtain ⟨rfl, hmore⟩ := upTo_of_run hrun
  exact ⟨upTo_invariant hstep fuel hs, hmore⟩

/-- **A loop ends if something gets less in each round.** -/
theorem Ends.of_measure {P : σ → Prop} (m : σ → Nat)
    (hstep : ∀ s, P s → more s = true → P (body s) ∧ m (body s) < m s) (hs : P s) : Ends more body s := by
  generalize hn : m s = n
  induction n using Nat.strong_induction_on generalizing s with
  | _ n ih =>
    cases hmore : more s with
    | false => exact ends_of_not hmore
    | true =>
      obtain ⟨hbody, hlt⟩ := hstep s hs hmore
      exact (ends_body_iff hmore).1 (ih (m (body s)) (hn ▸ hlt) hbody rfl)

/-- **A loop does not end if each round leads to another.** -/
theorem not_ends {P : σ → Prop} (hstep : ∀ s, P s → more s = true ∧ P (body s)) (hs : P s) : ¬Ends more body s := by
  rintro ⟨t, h⟩
  obtain ⟨ht, hmore⟩ := h.invariant (fun s hs _ => (hstep s hs).2) hs
  rw [(hstep t ht).1] at hmore
  cases hmore

/-! ## Results of a fuel -/

section Fuel

variable {σ α β : Type} {more : σ → Bool} {body : σ → σ} {f : Nat → Option α}

/-- More fuel leaves a result as it is. -/
def Grows (f : Nat → Option α) : Prop := ∀ (n m : Nat) (a : α), n ≤ m → f n = some a → f m = some a

/-- With enough fuel the result is `a`. -/
def Settles (f : Nat → Option α) (a : α) : Prop := ∃ n, ∀ m, n ≤ m → f m = some a

theorem Grows.settles (h : Grows f) {n : Nat} {a : α} (hn : f n = some a) : Settles f a :=
  ⟨n, fun m hle => h n m a hle hn⟩

theorem Settles.some {a : α} (h : Settles f a) : ∃ n, f n = some a := h.imp fun n hn => hn n (Nat.le_refl n)

theorem Settles.unique {a b : α} (h : Settles f a) (hb : Settles f b) : a = b := by
  obtain ⟨n, hn⟩ := h
  obtain ⟨m, hm⟩ := hb
  exact Option.some.inj ((hn _ (Nat.le_max_left n m)).symm.trans (hm _ (Nat.le_max_right n m)))

/-- What more fuel leaves as it is comes to a result, or has none with any fuel. -/
theorem Grows.settles_or_none (h : Grows f) : (∃ a, Settles f a) ∨ ∀ n, f n = none := by
  by_cases hnone : ∀ n, f n = none
  · exact .inr hnone
  · obtain ⟨n, hn⟩ := not_forall.1 hnone
    obtain ⟨a, ha⟩ := Option.ne_none_iff_exists'.1 hn
    exact .inl ⟨a, h.settles ha⟩

theorem Grows.map (h : Grows f) (g : α → β) : Grows fun n => (f n).map g := by
  intro n m b hle hb
  obtain ⟨a, ha, rfl⟩ := Option.map_eq_some_iff.1 hb
  exact Option.map_eq_some_iff.2 ⟨a, h n m a hle ha, rfl⟩

theorem Settles.map {a : α} (h : Settles f a) (g : α → β) : Settles (fun n => (f n).map g) (g a) :=
  h.imp fun _ hn m hle => congrArg (Option.map g) (hn m hle)

/-- A loop keeps its result with more fuel. -/
theorem grows_run (s : σ) : Grows fun n => run more body n s := by
  intro n
  dsimp only
  induction n generalizing s with
  | zero =>
    intro m t _ hrun
    cases hmore : more s with
    | false => rw [run_of_not hmore] at hrun ⊢; exact hrun
    | true => rw [run_zero hmore] at hrun; cases hrun
  | succ n ih =>
    intro m t hle hrun
    cases hmore : more s with
    | false => rw [run_of_not hmore] at hrun ⊢; exact hrun
    | true =>
      obtain ⟨m, rfl⟩ : ∃ k, m = k + 1 := ⟨m - 1, by omega⟩
      rw [run_succ hmore] at hrun ⊢
      exact ih (body s) m t (Nat.le_of_succ_le_succ hle) hrun

variable {g : Nat → β → α → Option β}

theorem grows_foldlM (hg : ∀ b a, Grows fun n => g n b a) : ∀ (l : List α) (b : β),
    Grows fun n => l.foldlM (g n) b
  | [], _ => fun _ _ _ _ h => h
  | a :: l, b => by
    intro n m c hle h
    dsimp only at h ⊢
    rw [List.foldlM_cons] at h ⊢
    obtain ⟨d, hd, hl⟩ := Option.bind_eq_some_iff.1 h
    exact Option.bind_eq_some_iff.2 ⟨d, hg b a n m d hle hd, grows_foldlM hg l d n m c hle hl⟩

/-- **Steps over a list have no result if and only if one of them has none, where the ones before it lead.** -/
theorem foldlM_eq_none_iff (hg : ∀ b a, Grows fun n => g n b a) : ∀ (l : List α) (b : β),
    (∀ n, l.foldlM (g n) b = none) ↔
      ∃ pre a post c, l = pre ++ a :: post ∧ Settles (fun n => pre.foldlM (g n) b) c ∧ ∀ n, g n c a = none
  | [], b => by
    refine iff_of_false (fun h => nomatch h 0) ?_
    rintro ⟨pre, a, post, c, hl, -⟩
    exact absurd hl.symm (by simp)
  | a :: l, b => by
    rcases (hg b a).settles_or_none with ⟨c, hc⟩ | hnone
    · obtain ⟨n, (hn : ∀ m, n ≤ m → g m b a = some c)⟩ := hc
      have hcons : ∀ (l : List α) m, n ≤ m → (a :: l).foldlM (g m) b = l.foldlM (g m) c := fun l m hle => by
        rw [List.foldlM_cons, hn m hle]
        rfl
      have hrest : (∀ m, (a :: l).foldlM (g m) b = none) ↔ ∀ m, l.foldlM (g m) c = none := by
        constructor
        · intro h m
          have hmax := (hcons l (max n m) (Nat.le_max_left n m)).symm.trans (h _)
          cases hl : l.foldlM (g m) c with
          | none => rfl
          | some d => cases hmax.symm.trans (grows_foldlM hg l c m _ d (Nat.le_max_right n m) hl)
        · intro h m
          cases hl : (a :: l).foldlM (g m) b with
          | none => rfl
          | some d =>
            have hmax := (hcons l (max n m) (Nat.le_max_left n m)).symm.trans
              (grows_foldlM hg (a :: l) b m _ d (Nat.le_max_right n m) hl)
            cases (h _).symm.trans hmax
      rw [hrest, foldlM_eq_none_iff hg l c]
      constructor
      · rintro ⟨pre, a', post, d, rfl, ⟨k, hk⟩, hd⟩
        refine ⟨a :: pre, a', post, d, rfl, ⟨max n k, fun m hle => ?_⟩, hd⟩
        exact (hcons pre m (by omega)).trans (hk m (by omega))
      · rintro ⟨pre, a', post, d, hl, ⟨k, hk⟩, hd⟩
        cases pre with
        | nil =>
          obtain ⟨rfl, -⟩ := List.cons.inj hl
          cases Option.some.inj (hk k (Nat.le_refl k))
          cases (hd n).symm.trans (hn n (Nat.le_refl n))
        | cons a'' pre =>
          obtain ⟨rfl, rfl⟩ := List.cons.inj hl
          refine ⟨pre, a', post, d, rfl, ⟨max n k, fun m hle => ?_⟩, hd⟩
          exact (hcons pre m (by omega)).symm.trans (hk m (by omega))
    · refine iff_of_true (fun n => ?_) ⟨[], a, l, b, rfl, ⟨0, fun _ _ => rfl⟩, hnone⟩
      rw [List.foldlM_cons, hnone]
      rfl

end Fuel

end Loop
