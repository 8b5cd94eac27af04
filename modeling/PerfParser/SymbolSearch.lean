import Mathlib.Algebra.Ring.Nat
import PerfParser.AddressCache
import PerfParser.Lib.LowerBound
/-!
# SymbolSearch — which symbol of a table is found (`perfaddresscache.cpp`)

A table is sorted by offset, and an entry that repeats the offset and the size of the one before it is dropped.  For an
address the first entry that starts there is found; if there is none, the one that is kept last of those that start
nearest below it, if that reaches the address or has no size.  No other entry is looked at, so one that encompasses the
address may be passed over (`symbolAt_encompasses_iff`), and what is found inside of a symbol may be another alias than
what is found at its start (`symbolAt_agrees_iff`).
-/
namespace PerfParser

open LowerBound StableSort

namespace SymbolCacheEntry

variable (demangle : QByteArray → QByteArray) (e : SymbolCacheEntry) (relAddr : UInt64)

/-- The entry has the address. -/
def Encompasses : Prop := e.offset ≤ relAddr ∧ relAddr.toNat < e.offset.toNat + e.size.toNat

/-- It has the address as far as `findSymbol` can tell, in 64 bits. -/
def reaches : Bool := e.offset + e.size > relAddr ∨ e.size = 0

/-- Its name, demangled. -/
def name : QByteArray := (e.lazyDemangle demangle).symname

@[simp] theorem offset_lazyDemangle : (e.lazyDemangle demangle).offset = e.offset := by
  rw [lazyDemangle]
  split <;> rfl

@[simp] theorem size_lazyDemangle : (e.lazyDemangle demangle).size = e.size := by
  rw [lazyDemangle]
  split <;> rfl

@[simp] theorem lazyDemangle_idem : (e.lazyDemangle demangle).lazyDemangle demangle = e.lazyDemangle demangle := by
  rw [lazyDemangle, if_pos]
  rw [lazyDemangle]
  split
  · assumption
  · rfl

end SymbolCacheEntry

open SymbolCacheEntry (lazyDemangle)

namespace PerfAddressCache

/-! ## What is found in the sorted symbols -/

/-- The symbol that is found, before it is demangled. -/
def pick (relAddr : UInt64) (symbols : List SymbolCacheEntry) : Option SymbolCacheEntry :=
  ((symbols.dropWhile (fun e => e.offset < relAddr)).head?.filter (fun e => e.offset = relAddr)).or
    ((symbols.takeWhile (fun e => e.offset < relAddr)).getLast?.filter (fun e => e.reaches relAddr))

variable (demangle : QByteArray → QByteArray) (relAddr : UInt64) (symbols : List SymbolCacheEntry)

/-- It is all the same whether the symbols have been demangled. -/
theorem pick_map :
    pick relAddr (symbols.map (lazyDemangle demangle)) =
      (pick relAddr symbols).map (lazyDemangle demangle) := by
  have hbelow : (fun e : SymbolCacheEntry => decide (e.offset < relAddr)) ∘ lazyDemangle demangle =
      fun e => decide (e.offset < relAddr) := funext fun e => by
    rw [Function.comp_apply, SymbolCacheEntry.offset_lazyDemangle]
  have hexact : (fun e : SymbolCacheEntry => decide (e.offset = relAddr)) ∘ lazyDemangle demangle =
      fun e => decide (e.offset = relAddr) := funext fun e => by
    rw [Function.comp_apply, SymbolCacheEntry.offset_lazyDemangle]
  have hreaches : (fun e : SymbolCacheEntry => e.reaches relAddr) ∘ lazyDemangle demangle =
      fun e => e.reaches relAddr := funext fun e => by
    rw [Function.comp_apply, SymbolCacheEntry.reaches, SymbolCacheEntry.offset_lazyDemangle,
      SymbolCacheEntry.size_lazyDemangle, SymbolCacheEntry.reaches]
  rw [pick, List.dropWhile_map, List.takeWhile_map, List.head?_map, List.getLast?_map, Option.filter_map,
    Option.filter_map, hbelow, hexact, hreaches, ← Option.map_or, pick]

/-- The symbol at the address, or else what is found below it. -/
theorem at_or_below (before after : List SymbolCacheEntry) {below : Option SymbolCacheEntry}
    {previous : SymbolCacheEntry × List SymbolCacheEntry}
    {found : SymbolCacheEntry × List SymbolCacheEntry}
    (hfound : found = match after with
      | [] => previous
      | e :: rest =>
        if e.offset = relAddr then (e.lazyDemangle demangle, before ++ e.lazyDemangle demangle :: rest) else previous)
    (hentry : previous.1 = (below.map (lazyDemangle demangle)).getD {})
    (hsymbols : previous.2.map (lazyDemangle demangle) =
      (before ++ after).map (lazyDemangle demangle)) :
    found.1 = (((after.head?.filter (fun e => e.offset = relAddr)).or below).map
        (lazyDemangle demangle)).getD {} ∧
      found.2.map (lazyDemangle demangle) =
        (before ++ after).map (lazyDemangle demangle) := by
  subst hfound
  cases after with
  | nil => exact ⟨hentry, hsymbols⟩
  | cons e rest =>
    dsimp only
    rw [List.head?_cons, Option.filter_some]
    by_cases hexact : e.offset = relAddr
    · rw [if_pos hexact, if_pos (decide_eq_true hexact)]
      refine ⟨rfl, ?_⟩
      simp
    · rw [if_neg hexact, if_neg (by rw [decide_eq_true_iff]; exact hexact)]
      exact ⟨hentry, hsymbols⟩

/-- What is found is picked, and demangled in the symbols as well. -/
theorem findIn_eq :
    (findIn demangle relAddr symbols).1 =
        ((pick relAddr symbols).map (lazyDemangle demangle)).getD {} ∧
      (findIn demangle relAddr symbols).2.map (lazyDemangle demangle) =
        symbols.map (lazyDemangle demangle) := by
  obtain ⟨before, after, hbefore, hafter, hsplit⟩ : ∃ before after,
      symbols.takeWhile (fun e => decide (e.offset < relAddr)) = before ∧
        symbols.dropWhile (fun e => decide (e.offset < relAddr)) = after ∧ symbols = before ++ after :=
    ⟨_, _, rfl, rfl, List.takeWhile_append_dropWhile.symm⟩
  have hbelow : ∀ e ∈ before, e.offset ≤ relAddr := fun e he => by
    rw [← hbefore] at he
    have hlt := List.all_eq_true.1 List.all_takeWhile e he
    exact Std.le_of_lt (of_decide_eq_true hlt)
  subst hsplit
  rw [findIn, hbefore, hafter, pick, hbefore, hafter]
  refine at_or_below demangle relAddr before after rfl ?_ ?_
  · cases hlast : before.getLast? with
    | none => rfl
    | some e =>
      have hle := hbelow e (List.mem_of_getLast? hlast)
      rw [Option.filter_some]
      dsimp only
      by_cases hreaches : e.offset + e.size > relAddr ∨ e.size = 0
      · have hreach : e.reaches relAddr = true := decide_eq_true hreaches
        rw [if_pos ⟨hle, hreaches⟩, if_pos hreach]
        rfl
      · have hreach : ¬e.reaches relAddr = true := fun h => hreaches (of_decide_eq_true h)
        rw [if_neg fun h => hreaches h.2, if_neg hreach]
        rfl
  · cases hlast : before.getLast? with
    | none => rfl
    | some e =>
      obtain ⟨pre, rfl⟩ := List.getLast?_eq_some_iff.1 hlast
      dsimp only
      split
      · rw [List.dropLast_concat]
        simp
      · rfl

/-! ## What is found in a table -/

/-- The symbols of a table as they are cached. -/
def sortedSymbols (table : List SymbolCacheEntry) : List SymbolCacheEntry :=
  (sortBy (fun e : SymbolCacheEntry => e.offset) table).destutter (fun a b => ¬a.same b)

/-- The first entry of the table that starts at the address. -/
def FirstAt (table : List SymbolCacheEntry) (relAddr : UInt64) (e : SymbolCacheEntry) : Prop :=
  table.find? (fun x => x.offset = relAddr) = some e

/-- No entry starts nearer below the address, and of those that start there it is the first of the last that have one
size. -/
structure Nearest (table : List SymbolCacheEntry) (relAddr : UInt64) (e : SymbolCacheEntry) : Prop where
  below : e.offset < relAddr
  greatest : ∀ x ∈ table, x.offset < relAddr → x.offset ≤ e.offset
  last : LastRun (fun x : SymbolCacheEntry => x.size) (table.filter (fun x => x.offset = e.offset)) e

section Table

variable {table : List SymbolCacheEntry} {relAddr : UInt64} {e : SymbolCacheEntry}

theorem FirstAt.offset_eq (h : FirstAt table relAddr e) : e.offset = relAddr := by
  have := List.find?_some h
  exact of_decide_eq_true this

theorem Nearest.mem (h : Nearest table relAddr e) : e ∈ table := (List.mem_filter.1 h.last.mem).1

theorem exists_firstAt {x : SymbolCacheEntry} (hx : x ∈ table) : ∃ e, FirstAt table x.offset e :=
  Option.isSome_iff_exists.1 (List.find?_isSome.2 ⟨x, hx, decide_eq_true rfl⟩)

theorem sortedSymbols_pairwise (table : List SymbolCacheEntry) :
    (sortedSymbols table).Pairwise (KeyLE fun e : SymbolCacheEntry => e.offset) :=
  (sortBy_sorted _ table).sublist (List.destutter_sublist _ _)

/-- The entries at an offset, without those that repeat the size of the one before. -/
theorem classOf_sortedSymbols (table : List SymbolCacheEntry) (t : UInt64) :
    classOf (fun e : SymbolCacheEntry => e.offset) t (sortedSymbols table) =
      (table.filter (fun x => x.offset = t)).destutter (fun a b => a.size ≠ b.size) := by
  have hclass := classOf_destutter (fun e : SymbolCacheEntry => e.offset) (R := fun a b => ¬a.same b)
    (S := fun a b => a.size ≠ b.size) (fun a b hne hsame => hne hsame.1)
    (fun a b heq => not_congr (and_iff_right heq)) t (sortBy_sorted _ table)
  rw [sortedSymbols, hclass, classOf_sortBy]
  rfl

theorem exists_offset_iff {t : UInt64} :
    (∃ x ∈ sortedSymbols table, x.offset = t) ↔ ∃ x ∈ table, x.offset = t := by
  have hmem : ∀ l : List SymbolCacheEntry,
      (∃ x ∈ l, x.offset = t) ↔ classOf (fun e : SymbolCacheEntry => e.offset) t l ≠ [] := fun l => by
    constructor
    · rintro ⟨x, hx, ht⟩
      exact List.ne_nil_of_mem ((mem_classOf _).2 ⟨hx, ht⟩)
    · intro h
      obtain ⟨x, hx⟩ := List.exists_mem_of_ne_nil _ h
      exact ⟨x, (mem_classOf _).1 hx⟩
  rw [hmem, hmem, classOf_sortedSymbols, not_iff_not, List.destutter_eq_nil]
  rfl

theorem firstAt_iff : ((sortedSymbols table).dropWhile (fun e => e.offset < relAddr)).head? = some e ∧
    e.offset = relAddr ↔ FirstAt table relAddr e := by
  rw [head?_dropWhile_iff (fun e : SymbolCacheEntry => e.offset) (sortedSymbols_pairwise table), classOf_sortedSymbols,
    head?_destutter, List.head?_filter, FirstAt]

theorem nearest_iff :
    ((sortedSymbols table).takeWhile (fun e => e.offset < relAddr)).getLast? = some e ↔ Nearest table relAddr e := by
  rw [getLast?_takeWhile_iff (fun e : SymbolCacheEntry => e.offset) (sortedSymbols_pairwise table),
    classOf_sortedSymbols, getLast?_destutter_iff (f := fun x : SymbolCacheEntry => x.size)]
  have hgreatest : (∀ x ∈ sortedSymbols table, x.offset < relAddr → x.offset ≤ e.offset) ↔
      ∀ x ∈ table, x.offset < relAddr → x.offset ≤ e.offset := by
    constructor
    · intro h x hx hlt
      obtain ⟨y, hy, hyx⟩ := exists_offset_iff.2 ⟨x, hx, rfl⟩
      rw [← hyx] at hlt ⊢
      exact h y hy hlt
    · intro h x hx hlt
      obtain ⟨y, hy, hyx⟩ := exists_offset_iff.1 ⟨x, hx, rfl⟩
      rw [← hyx] at hlt ⊢
      exact h y hy hlt
  rw [hgreatest]
  exact ⟨fun ⟨hbelow, hgreatest, hlast⟩ => ⟨hbelow, hgreatest, hlast⟩, fun h => ⟨h.below, h.greatest, h.last⟩⟩

/-- **Of a table the first entry at the address is picked, or else the nearest below if it reaches the address.** -/
theorem pick_iff : pick relAddr (sortedSymbols table) = some e ↔
    FirstAt table relAddr e ∨
      (∀ x ∈ table, x.offset ≠ relAddr) ∧ Nearest table relAddr e ∧ e.reaches relAddr = true := by
  have hexact : ∀ e, ((sortedSymbols table).dropWhile (fun e => e.offset < relAddr)).head?.filter
      (fun e => e.offset = relAddr) = some e ↔ FirstAt table relAddr e := fun e => by
    rw [Option.filter_eq_some_iff, decide_eq_true_iff]
    exact firstAt_iff
  have hnone : ((sortedSymbols table).dropWhile (fun e => e.offset < relAddr)).head?.filter
      (fun e => e.offset = relAddr) = none ↔ ∀ x ∈ table, x.offset ≠ relAddr := by
    rw [Option.eq_none_iff_forall_ne_some]
    constructor
    · rintro h x hx rfl
      obtain ⟨first, hfirst⟩ := exists_firstAt hx
      exact h first ((hexact first).2 hfirst)
    · intro h first hfirst
      have hfirstAt := (hexact first).1 hfirst
      exact h first (List.mem_of_find?_eq_some hfirstAt) hfirstAt.offset_eq
  rw [pick, Option.or_eq_some_iff, hexact, hnone, Option.filter_eq_some_iff]
  exact or_congr_right (and_congr_right' (and_congr_left' nearest_iff))

end Table

/-! ## Lookups -/

/-- The symbol at an address. -/
def symbolAt (demangle : QByteArray → QByteArray) (c : PerfAddressCache) (path : QByteArray) (relAddr : UInt64) :
    SymbolCacheEntry := (c.findSymbol demangle path relAddr).1

/-- The cache after some lookups. -/
def lookups (demangle : QByteArray → QByteArray) (c : PerfAddressCache) (calls : List (QByteArray × UInt64)) :
    PerfAddressCache := calls.foldl (fun c call => (c.findSymbol demangle call.1 call.2).2) c

section Lookups

variable (demangle : QByteArray → QByteArray) (c : PerfAddressCache) (path : QByteArray)

/-- The symbols of a path, as they are once they have been demangled. -/
def demangledSymbols : List SymbolCacheEntry := ((c.symbolCache.find path).getD []).map (lazyDemangle demangle)

theorem symbolAt_eq (relAddr : UInt64) :
    c.symbolAt demangle path relAddr = (pick relAddr (c.demangledSymbols demangle path)).getD {} := by
  rw [demangledSymbols, pick_map]
  exact (findIn_eq demangle relAddr _).1

/-- A lookup demangles, and no more. -/
theorem demangledSymbols_findSymbol (path' : QByteArray) (relAddr : UInt64) :
    (c.findSymbol demangle path' relAddr).2.demangledSymbols demangle path = c.demangledSymbols demangle path := by
  by_cases hpath : path = path'
  · subst hpath
    rw [demangledSymbols, findSymbol]
    dsimp only
    rw [QHash.find_insert_self]
    exact (findIn_eq demangle relAddr _).2
  · rw [demangledSymbols, findSymbol]
    dsimp only
    rw [QHash.find_insert_of_ne _ _ hpath, demangledSymbols]

theorem demangledSymbols_lookups : ∀ (calls : List (QByteArray × UInt64)) (c : PerfAddressCache),
    (c.lookups demangle calls).demangledSymbols demangle path = c.demangledSymbols demangle path
  | [], _ => rfl
  | call :: calls, c => by
    rw [lookups, List.foldl_cons]
    exact (demangledSymbols_lookups calls _).trans (demangledSymbols_findSymbol demangle c path call.1 call.2)

/-- **What is found in a table depends on the table only**, and not on what has been looked up before. -/
theorem symbolAt_table (table : List SymbolCacheEntry) (calls : List (QByteArray × UInt64)) (relAddr : UInt64) :
    ((c.setSymbolCache path table).lookups demangle calls).symbolAt demangle path relAddr =
      ((pick relAddr (sortedSymbols table)).map (lazyDemangle demangle)).getD {} := by
  have hsymbols : (c.setSymbolCache path table).demangledSymbols demangle path =
      (sortedSymbols table).map (lazyDemangle demangle) := by
    rw [demangledSymbols, setSymbolCache]
    dsimp only
    rw [QHash.find_insert_self, Option.getD_some, sortedSymbols]
  rw [symbolAt_eq, demangledSymbols_lookups, hsymbols, pick_map]

end Lookups

section Found

variable {demangle : QByteArray → QByteArray} {e : SymbolCacheEntry} {relAddr : UInt64}

theorem isValid_lazyDemangle : (e.lazyDemangle demangle).isValid = true ↔ e.name demangle ≠ [] := by
  rw [SymbolCacheEntry.isValid, Bool.not_eq_true', List.isEmpty_eq_false_iff, SymbolCacheEntry.name]

theorem encompasses_lazyDemangle : (e.lazyDemangle demangle).Encompasses relAddr ↔ e.Encompasses relAddr := by
  rw [SymbolCacheEntry.Encompasses, SymbolCacheEntry.offset_lazyDemangle, SymbolCacheEntry.size_lazyDemangle,
    SymbolCacheEntry.Encompasses]

theorem encompasses_of_offset_eq (h : e.offset = relAddr) : e.Encompasses relAddr ↔ e.size ≠ 0 := by
  have hzero : e.size ≠ 0 ↔ e.size.toNat ≠ 0 := not_congr UInt64.toNat_inj.symm
  rw [SymbolCacheEntry.Encompasses, h, hzero]
  exact ⟨fun h => by omega, fun h => ⟨Std.le_refl _, by omega⟩⟩

theorem encompasses_of_below (h : e.offset < relAddr) :
    e.Encompasses relAddr ↔ relAddr.toNat < e.offset.toNat + e.size.toNat := and_iff_right (Std.le_of_lt h)

/-- An entry that ends in 64 bits, and behind the address, reaches it. -/
theorem reaches_of_lt (hfit : e.offset.toNat + e.size.toNat < 2 ^ 64)
    (h : relAddr.toNat < e.offset.toNat + e.size.toNat) : e.reaches relAddr = true := by
  refine decide_eq_true (.inl (UInt64.lt_iff_toNat_lt.2 ?_))
  rwa [UInt64.toNat_add, Nat.mod_eq_of_lt hfit]

end Found

/-- **Where an entry encompasses an address, one that does is found if and only if it is the first entry that starts
there, or none starts there and it is the nearest below**, and it has a name. -/
theorem symbolAt_encompasses_iff (demangle : QByteArray → QByteArray) (c : PerfAddressCache) (path : QByteArray)
    {table : List SymbolCacheEntry} (hfit : ∀ e ∈ table, e.offset.toNat + e.size.toNat < 2 ^ 64)
    (calls : List (QByteArray × UInt64)) (relAddr : UInt64) :
    ((∃ e ∈ table, e.Encompasses relAddr) →
      (((c.setSymbolCache path table).lookups demangle calls).symbolAt demangle path relAddr).isValid = true ∧
        (((c.setSymbolCache path table).lookups demangle calls).symbolAt demangle path relAddr).Encompasses relAddr) ↔
      (∀ e ∈ table, ¬e.Encompasses relAddr) ∨
      (∃ e, FirstAt table relAddr e ∧ e.size ≠ 0 ∧ e.name demangle ≠ []) ∨
      (∀ x ∈ table, x.offset ≠ relAddr) ∧
        ∃ e, Nearest table relAddr e ∧ relAddr.toNat < e.offset.toNat + e.size.toNat ∧ e.name demangle ≠ [] := by
  rw [symbolAt_table]
  constructor
  · intro h
    by_cases hsome : ∃ e ∈ table, e.Encompasses relAddr
    · obtain ⟨hvalid, hencompasses⟩ := h hsome
      cases hpick : pick relAddr (sortedSymbols table) with
      | none =>
        rw [hpick] at hvalid
        cases hvalid
      | some e =>
        rw [hpick] at hvalid hencompasses
        have hname := isValid_lazyDemangle.1 hvalid
        have hhas := encompasses_lazyDemangle.1 hencompasses
        rcases pick_iff.1 hpick with hfirst | ⟨hno, hnearest, -⟩
        · exact .inr (.inl ⟨e, hfirst, (encompasses_of_offset_eq hfirst.offset_eq).1 hhas, hname⟩)
        · exact .inr (.inr ⟨hno, e, hnearest, (encompasses_of_below hnearest.below).1 hhas, hname⟩)
    · exact .inl fun e he hhas => hsome ⟨e, he, hhas⟩
  · rintro (hnone | ⟨e, hfirst, hsize, hname⟩ | ⟨hno, e, hnearest, hreaches, hname⟩) ⟨x, hx, hhas⟩
    · exact absurd hhas (hnone x hx)
    · rw [pick_iff.2 (.inl hfirst)]
      exact ⟨isValid_lazyDemangle.2 hname,
        encompasses_lazyDemangle.2 ((encompasses_of_offset_eq hfirst.offset_eq).2 hsize)⟩
    · rw [pick_iff.2 (.inr ⟨hno, hnearest, reaches_of_lt (hfit e hnearest.mem) hreaches⟩)]
      exact ⟨isValid_lazyDemangle.2 hname,
        encompasses_lazyDemangle.2 ((encompasses_of_below hnearest.below).2 hreaches)⟩

def outerFunction : SymbolCacheEntry where
  offset := 0x100
  value := 0x100
  size := 0x100
  symname := QByteArray.ofString "outer"

/-- A function that starts and ends within the outer one. -/
def innerFunction : SymbolCacheEntry where
  offset := 0x110
  value := 0x110
  size := 0x10
  symname := QByteArray.ofString "inner"

def nestedTable : List SymbolCacheEntry := [outerFunction, innerFunction]

/-- At the start of the inner function it is found. -/
theorem symbolAt_innerFunction :
    (((({} : PerfAddressCache).setSymbolCache [] nestedTable).lookups id []).symbolAt id [] 0x110).isValid = true ∧
      (((({} : PerfAddressCache).setSymbolCache [] nestedTable).lookups id []).symbolAt id [] 0x110).Encompasses 0x110 :=
  (symbolAt_encompasses_iff id {} [] (by decide) [] 0x110).2
    (.inr (.inl ⟨innerFunction, rfl, by decide, by decide⟩))
    ⟨outerFunction, List.mem_cons_self, by decide, by decide⟩

/-- Behind the inner function the outer one is not found. -/
theorem not_symbolAt_encompasses : ¬∀ (demangle : QByteArray → QByteArray) (c : PerfAddressCache) (path : QByteArray)
    (table : List SymbolCacheEntry), (∀ e ∈ table, e.offset.toNat + e.size.toNat < 2 ^ 64) →
    ∀ relAddr, (∃ e ∈ table, e.Encompasses relAddr) →
      ((c.setSymbolCache path table).symbolAt demangle path relAddr).isValid = true ∧
        ((c.setSymbolCache path table).symbolAt demangle path relAddr).Encompasses relAddr := by
  intro h
  have hfound := (h id {} [] nestedTable (by decide) 0x150 ⟨outerFunction, List.mem_cons_self, by decide, by decide⟩).1
  exact absurd hfound (by decide)

/-! ## The same answer however often -/

/-- No entry of the table starts nearer, at or below the address. -/
structure Greatest (table : List SymbolCacheEntry) (relAddr : UInt64) (e : SymbolCacheEntry) : Prop where
  mem : e ∈ table
  offset_le : e.offset ≤ relAddr
  greatest : ∀ x ∈ table, x.offset ≤ relAddr → x.offset ≤ e.offset

theorem FirstAt.greatest {table : List SymbolCacheEntry} {relAddr : UInt64} {e : SymbolCacheEntry}
    (h : FirstAt table relAddr e) : Greatest table relAddr e where
  mem := List.mem_of_find?_eq_some h
  offset_le := Std.le_of_eq h.offset_eq
  greatest x _ hx := by
    rw [h.offset_eq]
    exact hx

theorem Nearest.toGreatest {table : List SymbolCacheEntry} {relAddr : UInt64} {e : SymbolCacheEntry}
    (h : Nearest table relAddr e) (hno : ∀ x ∈ table, x.offset ≠ relAddr) : Greatest table relAddr e where
  mem := h.mem
  offset_le := Std.le_of_lt h.below
  greatest x hx hle := by
    refine h.greatest x hx (UInt64.lt_iff_toNat_lt.2 (Nat.lt_of_le_of_ne (UInt64.le_iff_toNat_le.1 hle) ?_))
    exact fun heq => hno x hx (UInt64.toNat_inj.1 heq)

/-- **What is found is an entry of the table that starts nearest.** -/
theorem greatest_of_pick {table : List SymbolCacheEntry} {relAddr : UInt64} {e : SymbolCacheEntry}
    (h : pick relAddr (sortedSymbols table) = some e) : Greatest table relAddr e := by
  rcases pick_iff.1 h with hfirst | ⟨hno, hnearest, -⟩
  · exact hfirst.greatest
  · exact hnearest.toGreatest hno

/-- **Every query of a table has one answer, whatever has been queried before: an entry that starts nearest, its name
demangled once.** -/
theorem symbolAt_queried (demangle : QByteArray → QByteArray) (table : List SymbolCacheEntry) :
    ∃ found : UInt64 → SymbolCacheEntry, ∀ (c : PerfAddressCache) (path : QByteArray)
      (calls : List (QByteArray × UInt64)) (relAddr : UInt64),
      ((c.setSymbolCache path table).lookups demangle calls).symbolAt demangle path relAddr = found relAddr ∧
        ((found relAddr).isValid = true → ∃ e, Greatest table relAddr e ∧
          (found relAddr).offset = e.offset ∧ (found relAddr).value = e.value ∧ (found relAddr).size = e.size ∧
          (found relAddr).symname = if e.demangled then e.symname else demangle e.symname) := by
  refine ⟨fun relAddr => ((pick relAddr (sortedSymbols table)).map (lazyDemangle demangle)).getD {},
    fun c path calls relAddr => ⟨symbolAt_table demangle c path table calls relAddr, fun hvalid => ?_⟩⟩
  dsimp only at hvalid ⊢
  cases hpick : pick relAddr (sortedSymbols table) with
  | none =>
    rw [hpick] at hvalid
    cases hvalid
  | some e =>
    refine ⟨e, greatest_of_pick hpick, SymbolCacheEntry.offset_lazyDemangle demangle e, ?_,
      SymbolCacheEntry.size_lazyDemangle demangle e, ?_⟩
    · rw [Option.map_some, Option.getD_some, lazyDemangle]
      split <;> rfl
    · rw [Option.map_some, Option.getD_some, lazyDemangle]
      split <;> rfl

/-! ## Aliases -/

/-- If a symbol is found, it is found at its start as well. -/
def Agrees (demangle : QByteArray → QByteArray) (c : PerfAddressCache) (path : QByteArray) (relAddr : UInt64) : Prop :=
  let (found, c) := c.findSymbol demangle path relAddr
  found.isValid = true →
    (c.symbolAt demangle path found.offset).symname = found.symname ∧
      (c.symbolAt demangle path found.offset).size = found.size

/-- **An alias that is found inside of a symbol is found at its start if and only if it has the size and the name of the
first alias of the table.** -/
theorem symbolAt_agrees_iff (demangle : QByteArray → QByteArray) (c : PerfAddressCache) (path : QByteArray)
    (table : List SymbolCacheEntry) (calls : List (QByteArray × UInt64)) (relAddr : UInt64) :
    ((c.setSymbolCache path table).lookups demangle calls).Agrees demangle path relAddr ↔
      ((∀ x ∈ table, x.offset ≠ relAddr) → ∀ e first, Nearest table relAddr e → FirstAt table e.offset first →
        e.reaches relAddr = true → e.name demangle ≠ [] →
        first.name demangle = e.name demangle ∧ first.size = e.size) := by
  have hagain : ∀ t,
      (((c.setSymbolCache path table).lookups demangle calls).findSymbol demangle path relAddr).2.symbolAt demangle path
        t = ((pick t (sortedSymbols table)).map (lazyDemangle demangle)).getD {} := fun t => by
    have h := symbolAt_table demangle c path table (calls ++ [(path, relAddr)]) t
    rwa [lookups, List.foldl_append] at h
  have hfound := symbolAt_table demangle c path table calls relAddr
  rw [Agrees]
  dsimp only
  rw [symbolAt] at hfound
  rw [hfound, hagain]
  cases hpick : pick relAddr (sortedSymbols table) with
  | none =>
    refine iff_of_true (fun h => Bool.noConfusion h) fun hno e first hnearest _ hreaches _ => ?_
    rw [pick_iff.2 (.inr ⟨hno, hnearest, hreaches⟩)] at hpick
    cases hpick
  | some e =>
    rw [Option.map_some, Option.getD_some, isValid_lazyDemangle, SymbolCacheEntry.offset_lazyDemangle,
      SymbolCacheEntry.size_lazyDemangle]
    rcases pick_iff.1 hpick with hfirst | ⟨hno, hnearest, hreaches⟩
    · have hmem := List.mem_of_find?_eq_some hfirst
      rw [hfirst.offset_eq, hpick, Option.map_some, Option.getD_some, SymbolCacheEntry.size_lazyDemangle]
      exact iff_of_true (fun _ => ⟨rfl, rfl⟩) fun hno => absurd hfirst.offset_eq (hno e hmem)
    · obtain ⟨first, hfirst⟩ := exists_firstAt hnearest.mem
      rw [pick_iff.2 (.inl hfirst), Option.map_some, Option.getD_some, SymbolCacheEntry.size_lazyDemangle]
      constructor
      · intro h _ e' first' hnearest' hfirst' hreaches' hname
        rw [pick_iff.2 (.inr ⟨hno, hnearest', hreaches'⟩)] at hpick
        obtain rfl := Option.some.inj hpick
        obtain rfl := Option.some.inj (hfirst.symm.trans hfirst')
        exact h hname
      · exact fun h hname => h hno e first hnearest hfirst hreaches hname

/-- Two aliases of different sizes. -/
def aliasTable : List SymbolCacheEntry :=
  [{ offset := 0x100, value := 0x100, size := 0x10, symname := QByteArray.ofString "first" },
    { offset := 0x100, value := 0x100, size := 0x20, symname := QByteArray.ofString "second" }]

/-- Inside of them the second one is found, and at their start the first. -/
theorem not_symbolAt_agrees : ¬∀ (demangle : QByteArray → QByteArray) (c : PerfAddressCache) (path : QByteArray)
    (table : List SymbolCacheEntry) (relAddr : UInt64),
    (c.setSymbolCache path table).Agrees demangle path relAddr := by
  intro h
  have hagrees := (h id {} [] aliasTable 0x108 (by decide)).1
  exact absurd hagrees (by decide)

end PerfAddressCache

end PerfParser
