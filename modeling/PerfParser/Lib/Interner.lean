import Mathlib.Data.List.Basic
import Mathlib.Data.List.Nodup
/-!
# Interner — ids handed out in the order of first use

An interner gives every key the number of keys before it.  An entry is kept as it was first seen, so of two entries with
one key only the first is ever read back; `-1` stands for no entry.
-/

structure Interner {α κ : Type} (key : α → κ) where
  entries : List α
  nodup : (entries.map key).Nodup

namespace Interner

set_option linter.unusedSectionVars false

variable {α κ : Type} [DecidableEq κ] {key : α → κ}

def empty : Interner key := ⟨[], List.nodup_nil⟩

instance : Inhabited (Interner key) := ⟨empty⟩

/-- The entry with an id. -/
def get? (t : Interner key) : Int → Option α
  | .ofNat i => t.entries[i]?
  | .negSucc _ => none

/-- The id of the entry with the key of `a`. -/
def lookup (t : Interner key) (a : α) : Option Nat := t.entries.findIdx? (fun b => decide (key b = key a))

theorem lookup_eq_none {t : Interner key} {a : α} : t.lookup a = none ↔ ∀ b ∈ t.entries, key b ≠ key a := by
  simp [lookup, List.findIdx?_eq_none_iff]

/-- The interner with a new entry. -/
def snoc (t : Interner key) (a : α) (h : t.lookup a = none) : Interner key where
  entries := t.entries ++ [a]
  nodup := by
    rw [List.map_append, List.map_singleton, List.nodup_append]
    refine ⟨t.nodup, List.nodup_singleton _, fun k hk k' hk' => ?_⟩
    obtain ⟨b, hb, rfl⟩ := List.mem_map.1 hk
    rw [List.mem_singleton.1 hk']
    exact lookup_eq_none.1 h b hb

/-- The id of the key of `a`, new where the key is. -/
def resolve (t : Interner key) (a : α) : Int × Interner key :=
  if h : t.lookup a = none then (t.entries.length, t.snoc a h) else (((t.lookup a).getD 0 : Nat), t)

theorem resolve_of_none {t : Interner key} {a : α} (h : t.lookup a = none) :
    t.resolve a = (↑t.entries.length, t.snoc a h) := dif_pos h

theorem resolve_of_some {t : Interner key} {a : α} {i : Nat} (h : t.lookup a = some i) : t.resolve a = (↑i, t) := by
  rw [resolve, dif_neg (by rw [h]; exact Option.some_ne_none i), h]
  rfl

theorem get?_of_lookup {t : Interner key} {a : α} {i : Nat} (h : t.lookup a = some i) :
    ∃ b, t.get? i = some b ∧ key b = key a := by
  obtain ⟨hi, hkey, -⟩ := List.findIdx?_eq_some_iff_getElem.1 h
  exact ⟨t.entries[i], List.getElem?_eq_getElem hi, of_decide_eq_true hkey⟩

theorem get?_lt {t : Interner key} {id : Int} {a : α} (h : t.get? id = some a) :
    ∃ i : Nat, id = i ∧ i < t.entries.length := by
  cases id with
  | ofNat i =>
    obtain ⟨hi, -⟩ := List.getElem?_eq_some_iff.1 h
    exact ⟨i, rfl, hi⟩
  | negSucc i => cases h

theorem mem_of_get? {t : Interner key} {id : Int} {a : α} (h : t.get? id = some a) : a ∈ t.entries := by
  cases id with
  | ofNat i => exact List.mem_of_getElem? h
  | negSucc i => cases h

theorem get?_of_mem {t : Interner key} {a : α} (h : a ∈ t.entries) : ∃ i : Nat, t.get? i = some a :=
  List.mem_iff_getElem?.1 h

/-- **A key has one id.** -/
theorem get?_inj {t : Interner key} {i j : Int} {a b : α} (ha : t.get? i = some a) (hb : t.get? j = some b)
    (hkey : key a = key b) : i = j := by
  obtain ⟨i, rfl, hi⟩ := get?_lt ha
  obtain ⟨j, rfl, hj⟩ := get?_lt hb
  have ha : t.entries[i]? = some a := ha
  have hb : t.entries[j]? = some b := hb
  have hmap : (t.entries.map key)[i]? = (t.entries.map key)[j]? := by
    rw [List.getElem?_map, List.getElem?_map, ha, hb]
    exact congrArg some hkey
  rw [(List.getElem?_inj (by rwa [List.length_map]) t.nodup).1 hmap]

theorem lookup_of_get? {t : Interner key} {i : Nat} {a b : α} (ha : t.get? i = some a) (hkey : key a = key b) :
    t.lookup b = some i := by
  cases h : t.lookup b with
  | none => exact absurd hkey (lookup_eq_none.1 h a (mem_of_get? ha))
  | some j =>
    obtain ⟨c, hc, hkey'⟩ := get?_of_lookup h
    rw [Int.ofNat_inj.1 (get?_inj hc ha (hkey'.trans hkey.symm))]

/-- The entries of an interner stay where they are. -/
def Le (t t' : Interner key) : Prop := t.entries <+: t'.entries

theorem Le.refl (t : Interner key) : t.Le t := List.prefix_refl _

theorem Le.trans {t t' t'' : Interner key} (h : t.Le t') (h' : t'.Le t'') : t.Le t'' := List.IsPrefix.trans h h'

theorem Le.get? {t t' : Interner key} (h : t.Le t') {id : Int} {a : α} (ha : t.get? id = some a) :
    t'.get? id = some a := by
  obtain ⟨i, rfl, hi⟩ := get?_lt ha
  obtain ⟨l, hl⟩ := h
  have ha : t.entries[i]? = some a := ha
  show t'.entries[i]? = some a
  rw [← hl, List.getElem?_append_left hi, ha]

theorem Le.lookup {t t' : Interner key} (h : t.Le t') {a : α} {i : Nat} (ha : t.lookup a = some i) :
    t'.lookup a = some i := by
  obtain ⟨b, hb, hkey⟩ := get?_of_lookup ha
  exact lookup_of_get? (h.get? hb) hkey

theorem le_resolve (t : Interner key) (a : α) : t.Le (t.resolve a).2 := by
  cases h : t.lookup a with
  | none =>
    rw [resolve_of_none h]
    exact List.prefix_append _ _
  | some i =>
    rw [resolve_of_some h]
    exact Le.refl t

/-- **An id reads back an entry with the key it was resolved for.** -/
theorem get?_resolve (t : Interner key) (a : α) : ∃ b, (t.resolve a).2.get? (t.resolve a).1 = some b ∧ key b = key a := by
  cases h : t.lookup a with
  | none =>
    rw [resolve_of_none h]
    exact ⟨a, List.getElem?_concat_length, rfl⟩
  | some i =>
    rw [resolve_of_some h]
    exact get?_of_lookup h

/-- **A key that is resolved has its id from then on.** -/
theorem lookup_resolve (t : Interner key) (a : α) :
    ∃ i : Nat, (t.resolve a).1 = i ∧ (t.resolve a).2.lookup a = some i := by
  obtain ⟨b, hb, hkey⟩ := get?_resolve t a
  obtain ⟨i, hi, -⟩ := get?_lt hb
  rw [hi] at hb
  exact ⟨i, hi, lookup_of_get? hb hkey⟩

theorem get?_resolve_new {t : Interner key} {a : α} (h : ∀ b ∈ t.entries, key b ≠ key a) :
    (t.resolve a).2.get? (t.resolve a).1 = some a := by
  rw [resolve_of_none (lookup_eq_none.2 h)]
  exact List.getElem?_concat_length

theorem mem_resolve {t : Interner key} {a b : α} (h : b ∈ (t.resolve a).2.entries) : b ∈ t.entries ∨ b = a := by
  cases hl : t.lookup a with
  | none =>
    rw [resolve_of_none hl] at h
    exact (List.mem_append.1 h).imp_right List.mem_singleton.1
  | some i =>
    rw [resolve_of_some hl] at h
    exact .inl h

theorem resolve_nonneg (t : Interner key) (a : α) : 0 ≤ (t.resolve a).1 := by
  obtain ⟨b, hb, -⟩ := get?_resolve t a
  obtain ⟨i, hi, -⟩ := get?_lt hb
  rw [hi]
  exact Int.natCast_nonneg i

end Interner
