import PerfParser.Records
import Mathlib.Data.List.Induction
import Mathlib.Data.List.Nodup
/-!
# HashOrder — iterating a `QHash`

An iterator visits every key once, and in an order that changes from run to run.  A list with the same entries in any
order looks the same up (`lookup_perm`), and has the keys that were inserted (`mem_keys_insertAll`).
-/
namespace PerfParser

section Lookup

variable {κ ν : Type} [DecidableEq κ]

theorem lookup_eq_some_iff_mem : ∀ {l : List (κ × ν)}, (l.map Prod.fst).Nodup → ∀ {k : κ} {v : ν},
    l.lookup k = some v ↔ (k, v) ∈ l
  | [], _, _, _ => by simp
  | (a, b) :: l, h, k, v => by
    rw [List.map_cons, List.nodup_cons] at h
    by_cases hk : k = a
    · subst hk
      have hnot : (k, v) ∉ l := fun hmem => h.1 (List.mem_map.2 ⟨(k, v), hmem, rfl⟩)
      rw [List.lookup_cons_self, List.mem_cons, Prod.mk.injEq, or_iff_left hnot, Option.some.injEq]
      exact ⟨fun hb => ⟨rfl, hb.symm⟩, fun hb => hb.2.symm⟩
    · rw [List.lookup_cons, beq_false_of_ne hk, List.mem_cons, Prod.mk.injEq, or_iff_right (fun hand => hk hand.1)]
      exact lookup_eq_some_iff_mem h.2

/-- **The order of the entries does not matter.** -/
theorem lookup_perm {l l' : List (κ × ν)} (h : (l.map Prod.fst).Nodup) (hperm : l'.Perm l) (k : κ) :
    l'.lookup k = l.lookup k := by
  have h' : (l'.map Prod.fst).Nodup := (hperm.map Prod.fst).nodup_iff.2 h
  ext v
  rw [lookup_eq_some_iff_mem h', lookup_eq_some_iff_mem h, hperm.mem_iff]

end Lookup

namespace QHash

variable {κ ν : Type} [DecidableEq κ]

/-- An iterator visits the keys that were inserted. -/
theorem mem_keys_entries {k : κ} : ∀ {h : QHash κ ν}, k ∈ h.entries.map Prod.fst ↔ k ∈ h.map Prod.fst
  | [] => Iff.rfl
  | (a, v) :: h => by
    rw [entries, List.map_cons, List.map_cons, List.mem_cons, List.mem_cons, ← mem_keys_entries (h := h)]
    by_cases hk : k = a
    · simp [hk]
    · rw [or_iff_right hk, or_iff_right hk, List.mem_map, List.mem_map]
      refine exists_congr fun p => and_congr_left fun hp => ?_
      rw [List.mem_filter, and_iff_left]
      rw [hp]
      exact decide_eq_true hk

/-- An iterator visits no key twice. -/
theorem nodup_entries : ∀ h : QHash κ ν, (h.entries.map Prod.fst).Nodup
  | [] => .nil
  | (a, v) :: h => by
    rw [entries, List.map_cons, List.nodup_cons]
    refine ⟨fun hmem => ?_, (nodup_entries h).sublist (List.filter_sublist.map _)⟩
    obtain ⟨p, hp, rfl⟩ := List.mem_map.1 hmem
    exact absurd rfl (of_decide_eq_true (List.mem_filter.1 hp).2)

/-- An iterator visits of every key the latest insertion. -/
theorem find_entries (k : κ) : ∀ h : QHash κ ν, find (entries h) k = find h k
  | [] => rfl
  | (a, v) :: h => by
    have hremove : find (remove (entries h) a) k = if k = a then none else find (entries h) k := find_remove a k _
    refine (find_insert _ a k v).trans ((find_insert h a k v).trans ?_).symm
    by_cases hk : k = a
    · rw [if_pos hk, if_pos hk]
    · rw [if_neg hk, if_neg hk, ← find_entries k h]
      exact (hremove.trans (if_neg hk)).symm

/-- Values that are computed of those of another hash. -/
theorem find_mapM {ν' : Type} {f : ν → Option ν'} (k : κ) : ∀ {h : QHash κ ν} {h' : QHash κ ν'},
    h.mapM (fun p => (f p.2).map fun v => (p.1, v)) = some h' → h'.find k = (h.find k).bind f
  | [], _, hmap => by
    rw [← Option.some.inj hmap]
    rfl
  | (a, v) :: h, _, hmap => by
    rw [List.mapM_cons] at hmap
    obtain ⟨p, hp, hmap⟩ := Option.bind_eq_some_iff.1 hmap
    obtain ⟨h', hh', hmap⟩ := Option.bind_eq_some_iff.1 hmap
    obtain ⟨v', hv, rfl⟩ := Option.map_eq_some_iff.1 hp
    rw [← Option.some.inj hmap]
    refine (find_insert h' a k v').trans (Eq.trans ?_ (congrArg (·.bind f) (find_insert h a k v)).symm)
    by_cases hk : k = a
    · rw [if_pos hk, if_pos hk, Option.bind_some, hv]
    · rw [if_neg hk, if_neg hk]
      exact find_mapM k hh'

/-- Entries that are inserted one by one. -/
def insertAll (l : List (κ × ν)) : QHash κ ν := l.foldl (fun h p => h.insert p.1 p.2) []

omit [DecidableEq κ] in
theorem insertAll_eq_reverse (l : List (κ × ν)) : insertAll l = l.reverse :=
  List.foldl_flip_cons_eq_append'.trans (List.append_nil _)

theorem mem_keys_insertAll {l : List (κ × ν)} {k : κ} :
    k ∈ (insertAll l).entries.map Prod.fst ↔ k ∈ l.map Prod.fst := by
  rw [mem_keys_entries, insertAll_eq_reverse, List.map_reverse, List.mem_reverse]

/-- **A hash that is written entry by entry and read back is the same**, in whatever order it is iterated. -/
theorem find_insertAll_entries {h : QHash κ ν} {l : List (κ × ν)} (hperm : l.Perm h.entries) (k : κ) :
    (insertAll l).find k = h.find k := by
  rw [insertAll_eq_reverse, ← find_entries k h]
  exact lookup_perm (nodup_entries h) (l.reverse_perm.trans hperm) k

/-- Keys and values that are both mapped, where no other key of those inserted becomes the same. -/
theorem find_insertAll_map {κ' ν' : Type} [DecidableEq κ'] {f : κ → κ'} (g : ν → ν') {k : κ} {l : List (κ × ν)} :
    (∀ p ∈ l, f p.1 = f k → p.1 = k) →
      (insertAll (l.map fun p => (f p.1, g p.2))).find (f k) = ((insertAll l).find k).map g := by
  induction l using List.reverseRecOn with
  | nil => exact fun _ => rfl
  | append_singleton l p ih =>
    intro hinj
    have hl := ih fun q hq => hinj q (List.mem_append_left [p] hq)
    have hp := hinj p (List.mem_append_right l List.mem_cons_self)
    rw [List.map_append, insertAll, List.foldl_append, insertAll, List.foldl_append]
    refine (find_insert _ (f p.1) (f k) (g p.2)).trans (Eq.trans ?_ (congrArg _ (find_insert _ p.1 k p.2)).symm)
    by_cases hk : k = p.1
    · rw [if_pos (congrArg f hk), if_pos hk]
      rfl
    · rw [if_neg fun heq => hk (hp heq.symm).symm, if_neg hk]
      exact hl

end QHash

end PerfParser
