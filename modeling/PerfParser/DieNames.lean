import PerfParser.Records
import PerfParser.Lib.History
import Mathlib.Data.List.Nodup
/-!
# DieNames — the names of DIEs (`perfdwarfdiecache.cpp`)

The name of a DIE is put together from the names of the scopes it is in, from the innermost outwards, and the names of
the scopes are cached on the way.  A scope that is only the definition of a class takes its scopes from the declaration,
its specification; there the name is cached without the scope's own part.
-/
namespace PerfParser
namespace Dwarf

open History (Always)

/-- What libdw tells of a DIE: its offset and its attributes, those that it has from its specification or its abstract
origin included. -/
structure DieEntry where
  offset : UInt64
  name : Option QByteArray := none
  mipsLinkageNameAttr : Option QByteArray := none
  linkageNameAttr : Option QByteArray := none
deriving DecidableEq, Repr, Inhabited

/-- A DIE with the DIEs that lead up from it: the one that it is a child of and its specification.  The links form no
cycle; the walk over the scopes would not end there. -/
inductive Die
  | unit (entry : DieEntry)
  | child (entry : DieEntry) (parent : Die)
  | specified (entry : DieEntry) (specification parent : Die)
deriving DecidableEq, Repr

/-- `linkageName`. -/
def DieEntry.linkageName (e : DieEntry) : Option QByteArray := e.mipsLinkageNameAttr.or e.linkageNameAttr

namespace Die

def entry : Die → DieEntry
  | unit entry => entry
  | child entry _ => entry
  | specified entry _ _ => entry

/-- `dwarf_dieoffset`. -/
def offset (d : Die) : UInt64 := d.entry.offset

def parent : Die → Option Die
  | unit _ => none
  | child _ parent => some parent
  | specified _ _ parent => some parent

/-- `specificationDie`. -/
def specificationDie : Die → Option Die
  | unit _ => none
  | child _ _ => none
  | specified _ specification _ => some specification

def isUnit : Die → Bool
  | unit _ => true
  | child _ _ => false
  | specified _ _ _ => false

/-- The walk over the scopes goes on at the parent, or at the parent of the specification. -/
theorem scope_induction {P : Die → Prop} (unit : ∀ e, P (.unit e)) (child : ∀ e parent, P parent → P (.child e parent))
    (specified : ∀ e specification parent, (∀ scope ∈ specification.parent, P scope) →
      P (.specified e specification parent)) (d : Die) : P d := by
  have hboth : P d ∧ ∀ scope ∈ d.parent, P scope := by
    induction d with
    | unit e => exact ⟨unit e, fun _ hscope => nomatch hscope⟩
    | child e parent ih =>
      refine ⟨child e parent ih.1, fun scope hscope => ?_⟩
      rw [← Option.mem_some_iff.1 hscope]
      exact ih.1
    | specified e specification parent ihs ih =>
      refine ⟨specified e specification parent ihs.2, fun scope hscope => ?_⟩
      rw [← Option.mem_some_iff.1 hscope]
      exact ih.1
  exact hboth.1

end Die

/-! ## Demangling -/

/-- What the demangler plugins and the C++ runtime make of a mangled name. -/
structure Demanglers where
  plugins : QByteArray → Option QByteArray := fun _ => none
  runtime : QByteArray → Option QByteArray := fun _ => none

/-- `demangle`.  The name for the runtime starts with `_Z`. -/
def demangle (D : Demanglers) (mangledName : QByteArray) : QByteArray :=
  if mangledName.length < 3 then mangledName
  else
    match D.plugins mangledName with
    | some name => name
    | none => if [95, 90].isPrefixOf mangledName then (D.runtime mangledName).getD mangledName else mangledName

/-! ## Names of scopes -/

/-- `::`. -/
def scopeSeparator : QByteArray := [58, 58]

abbrev DieNameCache := QHash UInt64 QByteArray

structure ScopesToCache where
  offset : UInt64
  trailing : Nat
deriving DecidableEq, Repr, Inhabited

variable (D : Demanglers)

/-- The loop over the scopes for one of them, up to its specification: whether the name is fully qualified now, the
name, and what is to be cached of it. -/
def visitScope (cache : DieNameCache) (scope : DieEntry) (name : QByteArray) : Bool × QByteArray × List ScopesToCache :=
  match cache.find scope.offset with
  | some cached => (true, cached ++ (if name.isEmpty then name else scopeSeparator ++ name), [])
  | none =>
    match scope.linkageName with
    | some scopeLinkageName =>
      (true, demangle D scopeLinkageName ++ (scopeSeparator ++ name),
        [⟨scope.offset, (scopeSeparator ++ name).length⟩])
    | none =>
      match scope.name with
      | some scopeName =>
        (false, scopeName ++ (scopeSeparator ++ name), [⟨scope.offset, (scopeSeparator ++ name).length⟩])
      | none => (false, name, [])

/-- The loop over `cacheOps`. -/
def applyCacheOps (name : QByteArray) (cacheOps : List ScopesToCache) (cache : DieNameCache) : DieNameCache :=
  cacheOps.foldl (fun cache op => cache.insert op.offset (name.take (name.length - op.trailing))) cache

mutual

/-- The loop over the scopes from one of them on; the compile unit at the end is none. -/
def scopeNames : Die → QByteArray → DieNameCache → QByteArray × List ScopesToCache × DieNameCache
  | .unit _, name, cache => (name, [], cache)
  | .child scope parent, name, cache =>
    match visitScope D cache scope name with
    | (true, name, cacheOps) => (name, cacheOps, cache)
    | (false, name, cacheOps) =>
      let (name, above, cache) := scopeNames parent name cache
      (name, cacheOps ++ above, cache)
  | .specified scope specification _, name, cache =>
    match visitScope D cache scope name with
    | (true, name, cacheOps) => (name, cacheOps, cache)
    | (false, name, cacheOps) =>
      -- what is cached here leaves the scope's own name out
      let specified := [⟨scope.offset, name.length⟩, ⟨specification.offset, name.length⟩]
      let (name, cache) := prependScopeNames specification name cache
      (name, cacheOps ++ specified, cache)

/-- `prependScopeNames`. -/
def prependScopeNames : Die → QByteArray → DieNameCache → QByteArray × DieNameCache
  | .unit _, name, cache => (name, cache)
  | .child _ parent, name, cache =>
    let (name, cacheOps, cache) := scopeNames parent name cache
    (name, applyCacheOps name cacheOps cache)
  | .specified _ _ parent, name, cache =>
    let (name, cacheOps, cache) := scopeNames parent name cache
    (name, applyCacheOps name cacheOps cache)

end

/-- `qualifiedDieName`. -/
def qualifiedDieName (die : Die) (cache : DieNameCache) : QByteArray × DieNameCache :=
  match die.entry.linkageName with
  | some name => (name, cache)
  | none => prependScopeNames D (die.specificationDie.getD die) (die.entry.name.getD []) cache

/-- `CuDieRangeMapping::dieName`. -/
def dieName (die : Die) (cache : DieNameCache) : QByteArray × DieNameCache :=
  let name := (cache.find die.offset).getD []
  if name.isEmpty then
    let (qualified, cache) := qualifiedDieName D die (cache.insert die.offset name)
    let name := demangle D qualified
    (name, cache.insert die.offset name)
  else (name, cache)

/-- The cache after queries for the names of `dies`. -/
def dieNameCache (dies : List Die) : DieNameCache := dies.foldl (fun cache die => (dieName D die cache).2) []

/-! ## Full names -/

mutual

/-- The parts of the full name of a scope, outermost first. -/
def scopeParts : Die → List QByteArray
  | .unit _ => []
  | .child scope parent =>
    match scope.linkageName with
    | some scopeLinkageName => [demangle D scopeLinkageName]
    | none => scopeParts parent ++ scope.name.toList
  | .specified scope specification _ =>
    match scope.linkageName with
    | some scopeLinkageName => [demangle D scopeLinkageName]
    | none => enclosingParts specification ++ scope.name.toList

/-- The parts of the full name of the scope that a DIE is in. -/
def enclosingParts : Die → List QByteArray
  | .unit _ => []
  | .child _ parent => scopeParts parent
  | .specified _ _ parent => scopeParts parent

end

/-- The full name of a scope, without a separator at its end. -/
def fullScopeName (scope : Die) : QByteArray := scopeSeparator.intercalate (scopeParts D scope)

/-- The parts with a separator behind each. -/
def joinParts (parts : List QByteArray) : QByteArray := parts.flatMap (· ++ scopeSeparator)

/-- The name of a DIE before it is demangled. -/
def plainDieName (d : Die) : QByteArray :=
  match d.entry.linkageName with
  | some name => name
  | none => joinParts (enclosingParts D (d.specificationDie.getD d)) ++ d.entry.name.getD []

theorem joinParts_append (parts parts' : List QByteArray) :
    joinParts (parts ++ parts') = joinParts parts ++ joinParts parts' := List.flatMap_append

theorem joinParts_singleton (part : QByteArray) : joinParts [part] = part ++ scopeSeparator :=
  List.flatMap_singleton _ _

theorem joinParts_cons (part : QByteArray) :
    ∀ parts, joinParts (part :: parts) = scopeSeparator.intercalate (part :: parts) ++ scopeSeparator
  | [] => by simp [joinParts, List.intercalate]
  | part' :: parts => by
    have ih := joinParts_cons part' parts
    rw [joinParts, List.flatMap_cons, ← joinParts, ih]
    simp [List.intercalate]

/-- **A name that makes the parts with a separator behind it** is the full name. -/
theorem eq_intercalate_of_joinParts {v : QByteArray} {parts : List QByteArray}
    (h : v ++ scopeSeparator = joinParts parts) : v = scopeSeparator.intercalate parts := by
  cases parts with
  | nil => exact absurd (List.append_eq_nil_iff.1 h).2 (List.cons_ne_nil _ _)
  | cons part parts =>
    rw [joinParts_cons] at h
    exact List.append_cancel_right h

variable {D}

theorem enclosingParts_of_parent {d scope : Die} (h : d.parent = some scope) :
    enclosingParts D d = scopeParts D scope := by
  cases d with
  | unit e => cases h
  | child e parent =>
    cases h
    rw [enclosingParts]
  | specified e specification parent =>
    cases h
    rw [enclosingParts]

theorem prependScopeNames_of_parent {d scope : Die} (h : d.parent = some scope) (name : QByteArray)
    (cache : DieNameCache) :
    prependScopeNames D d name cache =
      ((scopeNames D scope name cache).1, applyCacheOps (scopeNames D scope name cache).1
        (scopeNames D scope name cache).2.1 (scopeNames D scope name cache).2.2) := by
  cases d with
  | unit e => cases h
  | child e parent =>
    cases h
    rw [prependScopeNames]
  | specified e specification parent =>
    cases h
    rw [prependScopeNames]

/-! ## The name -/

/-- The scopes that the walk from a scope on can come to. -/
inductive Above : Die → Die → Prop
  | here {x : Die} (h : x.isUnit = false) : Above x x
  | parent {e : DieEntry} {parent y : Die} (h : Above parent y) : Above (.child e parent) y
  | specification {e : DieEntry} {specification parent scope y : Die} (hscope : scope ∈ specification.parent)
      (h : Above scope y) : Above (.specified e specification parent) y

/-- What is cached of the scopes that the walk can come to is their full names. -/
def CachedAbove (D : Demanglers) (cache : DieNameCache) (x : Die) : Prop :=
  ∀ y, Above x y → ∀ v, cache.find y.offset = some v → v ++ scopeSeparator = joinParts (scopeParts D y)

mutual

/-- Whether the walk from a scope on, which has a name already if `named`, comes to no cached scope without one. -/
def namedAtHits (cache : DieNameCache) : Bool → Die → Bool
  | _, .unit _ => true
  | named, .child scope parent =>
    if cache.contains scope.offset then named
    else scope.linkageName.isSome || namedAtHits cache (named || scope.name.isSome) parent
  | named, .specified scope specification _ =>
    if cache.contains scope.offset then named
    else scope.linkageName.isSome || namedAtHitsOf cache (named || scope.name.isSome) specification

/-- The same of the scopes that a DIE is in. -/
def namedAtHitsOf (cache : DieNameCache) : Bool → Die → Bool
  | _, .unit _ => true
  | named, .child _ parent => namedAtHits cache named parent
  | named, .specified _ _ parent => namedAtHits cache named parent

end

/-- Whether the walk from a scope on ends before it goes on at a specification. -/
def avoidsSpecification (cache : DieNameCache) : Die → Bool
  | .unit _ => true
  | .child scope parent =>
    cache.contains scope.offset || scope.linkageName.isSome || avoidsSpecification cache parent
  | .specified scope _ _ => cache.contains scope.offset || scope.linkageName.isSome

theorem namedAtHitsOf_of_parent {d scope : Die} (h : d.parent = some scope) (cache : DieNameCache) (named : Bool) :
    namedAtHitsOf cache named d = namedAtHits cache named scope := by
  cases d with
  | unit e => cases h
  | child e parent =>
    cases h
    rw [namedAtHitsOf]
  | specified e specification parent =>
    cases h
    rw [namedAtHitsOf]

section Visit

variable {cache : DieNameCache} {scope : DieEntry} {name name' : QByteArray} {cacheOps : List ScopesToCache}

/-- Where a scope ends the walk, the name is the full one. -/
theorem visitScope_stop {parts : List QByteArray}
    (hcached : ∀ v, cache.find scope.offset = some v → v ++ scopeSeparator = joinParts parts)
    (hlinkage : ∀ l, scope.linkageName = some l → parts = [demangle D l])
    (hnamed : cache.contains scope.offset = true → name ≠ [])
    (h : visitScope D cache scope name = (true, name', cacheOps)) : name' = joinParts parts ++ name := by
  unfold visitScope at h
  cases hc : cache.find scope.offset with
  | some v =>
    have hne : name.isEmpty = false := by
      have := hnamed (by rw [QHash.contains, hc]; rfl)
      cases name with
      | nil => exact absurd rfl this
      | cons c name => rfl
    simp only [hc, hne, Bool.false_eq_true, if_false, Prod.mk.injEq] at h
    rw [← h.2.1, ← hcached v hc, List.append_assoc]
  | none =>
    cases hl : scope.linkageName with
    | some l =>
      simp only [hc, hl, Prod.mk.injEq] at h
      rw [← h.2.1, hlinkage l hl, joinParts_singleton, List.append_assoc]
    | none => cases hn : scope.name <;> simp [hc, hl, hn] at h

/-- Where it does not, its own name is in front, and is what is cached. -/
theorem visitScope_go (h : visitScope D cache scope name = (false, name', cacheOps)) :
    cache.contains scope.offset = false ∧ scope.linkageName = none ∧
      name' = joinParts scope.name.toList ++ name := by
  unfold visitScope at h
  cases hc : cache.find scope.offset with
  | some v => simp [hc] at h
  | none =>
    cases hl : scope.linkageName with
    | some l => simp [hc, hl] at h
    | none =>
      refine ⟨by rw [QHash.contains, hc]; rfl, rfl, ?_⟩
      cases hn : scope.name with
      | some n =>
        simp only [hc, hl, hn, Prod.mk.injEq] at h
        rw [← h.2.1, Option.toList_some, joinParts_singleton, List.append_assoc]
      | none =>
        simp only [hc, hl, hn, Prod.mk.injEq] at h
        exact h.2.1.symm

end Visit

theorem scopeParts_of_linkageName {x : Die} (hx : x.isUnit = false) {l : QByteArray}
    (h : x.entry.linkageName = some l) : scopeParts D x = [demangle D l] := by
  cases x with
  | unit e => cases hx
  | child e parent => rw [scopeParts, show e.linkageName = some l from h]
  | specified e specification parent => rw [scopeParts, show e.linkageName = some l from h]

theorem namedAtHits_of_contains {cache : DieNameCache} {x : Die} (hx : x.isUnit = false) {named : Bool}
    (h : cache.contains x.entry.offset = true) : namedAtHits cache named x = named := by
  cases x with
  | unit e => cases hx
  | child e parent =>
    rw [namedAtHits]
    exact if_pos h
  | specified e specification parent =>
    rw [namedAtHits]
    exact if_pos h

theorem visitScope_stop_of_hits {cache : DieNameCache} {x : Die} (hx : x.isUnit = false) {named : Bool}
    {name name' : QByteArray} {cacheOps : List ScopesToCache} (hnamed : named = true → name ≠ [])
    (hcached : CachedAbove D cache x) (hhits : namedAtHits cache named x = true)
    (h : visitScope D cache x.entry name = (true, name', cacheOps)) : name' = joinParts (scopeParts D x) ++ name :=
  visitScope_stop (hcached x (.here hx)) (fun _ hl => scopeParts_of_linkageName hx hl)
    (fun hc => hnamed ((namedAtHits_of_contains hx hc).symm.trans hhits)) h

theorem named_of_go {scope : DieEntry} {named : Bool} {name : QByteArray} (hnamed : named = true → name ≠ [])
    (h : (named || scope.name.isSome) = true) : joinParts scope.name.toList ++ name ≠ [] := by
  cases hn : scope.name with
  | some n =>
    rw [Option.toList_some, joinParts_singleton]
    exact List.append_ne_nil_of_left_ne_nil (List.append_ne_nil_of_right_ne_nil _ (List.cons_ne_nil _ _)) _
  | none =>
    rw [hn, Option.isSome_none, Bool.or_false] at h
    exact hnamed h

theorem prependScopeNames_fst {d : Die} {name : QByteArray} {cache : DieNameCache}
    (h : ∀ scope ∈ d.parent, (scopeNames D scope name cache).1 = joinParts (scopeParts D scope) ++ name) :
    (prependScopeNames D d name cache).1 = joinParts (enclosingParts D d) ++ name := by
  cases hp : d.parent with
  | none =>
    cases d with
    | unit e =>
      rw [prependScopeNames, enclosingParts]
      rfl
    | child e parent => cases hp
    | specified e specification parent => cases hp
  | some scope => rw [prependScopeNames_of_parent hp, enclosingParts_of_parent hp, h scope hp]

/-- **The walk puts the full name in front**, whatever the cache has. -/
theorem scopeNames_fst (cache : DieNameCache) (x : Die) : ∀ {named : Bool} {name : QByteArray},
    (named = true → name ≠ []) → CachedAbove D cache x → namedAtHits cache named x = true →
    (scopeNames D x name cache).1 = joinParts (scopeParts D x) ++ name := by
  induction x using Die.scope_induction with
  | unit e =>
    intro named name _ _ _
    rw [scopeNames, scopeParts]
    rfl
  | child e parent ih =>
    intro named name hnamed hcached hhits
    rcases hv : visitScope D cache e name with ⟨_ | _, name', cacheOps⟩
    · obtain ⟨hmiss, hl, rfl⟩ := visitScope_go hv
      have habove : namedAtHits cache (named || e.name.isSome) parent = true := by
        simpa [namedAtHits, hmiss, hl] using hhits
      have hparent := ih (named_of_go hnamed) (fun y hy => hcached y (.parent hy)) habove
      rw [scopeNames, hv, scopeParts, hl, joinParts_append, List.append_assoc]
      exact hparent
    · rw [scopeNames, hv]
      exact visitScope_stop_of_hits rfl hnamed hcached hhits hv
  | specified e specification parent ih =>
    intro named name hnamed hcached hhits
    rcases hv : visitScope D cache e name with ⟨_ | _, name', cacheOps⟩
    · obtain ⟨hmiss, hl, rfl⟩ := visitScope_go hv
      have habove : namedAtHitsOf cache (named || e.name.isSome) specification = true := by
        simpa [namedAtHits, hmiss, hl] using hhits
      have hspecification := prependScopeNames_fst fun scope hscope =>
        ih scope hscope (named_of_go hnamed) (fun y hy => hcached y (.specification hscope hy)) (by
          rwa [namedAtHitsOf_of_parent hscope] at habove)
      rw [scopeNames, hv, scopeParts, hl, joinParts_append, List.append_assoc]
      exact hspecification
    · rw [scopeNames, hv]
      exact visitScope_stop_of_hits rfl hnamed hcached hhits hv

/-! ## What is cached -/

/-- What a cache operation takes of the name is the full name of a scope that the walk has come to. -/
def Caches (D : Demanglers) (x : Die) (name : QByteArray) (op : ScopesToCache) : Prop :=
  ∃ y, Above x y ∧ op.offset = y.offset ∧
    name.take (name.length - op.trailing) ++ scopeSeparator = joinParts (scopeParts D y)

theorem visitScope_cacheOps {cache : DieNameCache} {scope : DieEntry} {name name' : QByteArray} {stop : Bool}
    {cacheOps : List ScopesToCache} (h : visitScope D cache scope name = (stop, name', cacheOps)) :
    ∀ op ∈ cacheOps, op = ⟨scope.offset, (scopeSeparator ++ name).length⟩ ∧
      (scope.linkageName.isSome || scope.name.isSome) = true := by
  intro op hop
  unfold visitScope at h
  cases hc : cache.find scope.offset with
  | some v =>
    simp only [hc, Prod.mk.injEq] at h
    rw [← h.2.2] at hop
    exact absurd hop List.not_mem_nil
  | none =>
    cases hl : scope.linkageName with
    | some l =>
      simp only [hc, hl, Prod.mk.injEq] at h
      rw [← h.2.2, List.mem_singleton] at hop
      exact ⟨hop, rfl⟩
    | none =>
      cases hn : scope.name with
      | some n =>
        simp only [hc, hl, hn, Prod.mk.injEq] at h
        rw [← h.2.2, List.mem_singleton] at hop
        exact ⟨hop, rfl⟩
      | none =>
        simp only [hc, hl, hn, Prod.mk.injEq] at h
        rw [← h.2.2] at hop
        exact absurd hop List.not_mem_nil

theorem scopeParts_ne_nil {x : Die} (hx : x.isUnit = false)
    (h : (x.entry.linkageName.isSome || x.entry.name.isSome) = true) : scopeParts D x ≠ [] := by
  cases hl : x.entry.linkageName with
  | some l =>
    rw [scopeParts_of_linkageName hx hl]
    exact List.cons_ne_nil _ _
  | none =>
    rw [hl, Option.isSome_none, Bool.false_or, Option.isSome_iff_exists] at h
    obtain ⟨n, hn⟩ := h
    cases x with
    | unit e => cases hx
    | child e parent => simp [scopeParts, show e.linkageName = none from hl, show e.name = some n from hn]
    | specified e specification parent =>
      simp [scopeParts, show e.linkageName = none from hl, show e.name = some n from hn]

theorem caches_here {x : Die} (hx : x.isUnit = false) {name full : QByteArray}
    (hfull : full = joinParts (scopeParts D x) ++ name) (hne : scopeParts D x ≠ []) :
    Caches D x full ⟨x.offset, (scopeSeparator ++ name).length⟩ := by
  obtain ⟨part, parts, hparts⟩ := List.exists_cons_of_ne_nil hne
  refine ⟨x, .here hx, rfl, ?_⟩
  rw [hfull, hparts, joinParts_cons, List.append_assoc, List.length_append, Nat.add_sub_cancel, List.take_left]

theorem Caches.of_parent {e : DieEntry} {parent : Die} {name : QByteArray} {op : ScopesToCache}
    (h : Caches D parent name op) : Caches D (.child e parent) name op := by
  obtain ⟨y, hy, hop⟩ := h
  exact ⟨y, .parent hy, hop⟩

/-- **Off the specifications** the walk leaves the cache alone, and has full names to cache. -/
theorem scopeNames_snd (cache : DieNameCache) (x : Die) : ∀ {named : Bool} {name : QByteArray},
    (named = true → name ≠ []) → CachedAbove D cache x → namedAtHits cache named x = true →
    avoidsSpecification cache x = true →
    (scopeNames D x name cache).2.2 = cache ∧
      ∀ op ∈ (scopeNames D x name cache).2.1, Caches D x (scopeNames D x name cache).1 op := by
  induction x with
  | unit e =>
    intro named name _ _ _ _
    rw [scopeNames]
    exact ⟨rfl, fun op hop => absurd hop List.not_mem_nil⟩
  | child e parent ih =>
    intro named name hnamed hcached hhits havoids
    have hfull := scopeNames_fst cache (.child e parent) hnamed hcached hhits
    rcases hv : visitScope D cache e name with ⟨_ | _, name', cacheOps⟩
    · obtain ⟨hmiss, hl, rfl⟩ := visitScope_go hv
      have habove : namedAtHits cache (named || e.name.isSome) parent = true := by
        simpa [namedAtHits, hmiss, hl] using hhits
      have havoids' : avoidsSpecification cache parent = true := by
        simpa [avoidsSpecification, hmiss, hl] using havoids
      obtain ⟨hcache, hops⟩ := ih (named_of_go hnamed) (fun y hy => hcached y (.parent hy)) habove havoids'
      rw [scopeNames, hv] at hfull ⊢
      refine ⟨hcache, fun op hop => ?_⟩
      rcases List.mem_append.1 hop with hop | hop
      · obtain ⟨rfl, hparts⟩ := visitScope_cacheOps hv op hop
        exact caches_here rfl hfull (scopeParts_ne_nil rfl hparts)
      · exact (hops op hop).of_parent
    · rw [scopeNames, hv] at hfull ⊢
      refine ⟨rfl, fun op hop => ?_⟩
      obtain ⟨rfl, hparts⟩ := visitScope_cacheOps hv op hop
      exact caches_here rfl hfull (scopeParts_ne_nil rfl hparts)
  | specified e specification parent _ _ =>
    intro named name hnamed hcached hhits havoids
    have hfull := scopeNames_fst cache (.specified e specification parent) hnamed hcached hhits
    rcases hv : visitScope D cache e name with ⟨_ | _, name', cacheOps⟩
    · obtain ⟨hmiss, hl, -⟩ := visitScope_go hv
      simp [avoidsSpecification, hmiss, hl] at havoids
    · rw [scopeNames, hv] at hfull ⊢
      refine ⟨rfl, fun op hop => ?_⟩
      obtain ⟨rfl, hparts⟩ := visitScope_cacheOps hv op hop
      exact caches_here rfl hfull (scopeParts_ne_nil rfl hparts)

theorem find_applyCacheOps {name v : QByteArray} {k : UInt64} :
    ∀ (cacheOps : List ScopesToCache) (cache : DieNameCache), (applyCacheOps name cacheOps cache).find k = some v →
      cache.find k = some v ∨ ∃ op ∈ cacheOps, op.offset = k ∧ v = name.take (name.length - op.trailing)
  | [], _, h => .inl h
  | op :: cacheOps, cache, h => by
    rcases find_applyCacheOps cacheOps _ h with h | ⟨op', hop', h⟩
    · rw [QHash.find_insert] at h
      by_cases hk : k = op.offset
      · rw [if_pos hk, Option.some.injEq] at h
        exact .inr ⟨op, List.mem_cons_self, hk.symm, h.symm⟩
      · rw [if_neg hk] at h
        exact .inl h
    · exact .inr ⟨op', List.mem_cons_of_mem _ hop', h⟩

theorem find_prependScopeNames {d : Die} {named : Bool} {name v : QByteArray} {cache : DieNameCache} {k : UInt64}
    (hnamed : named = true → name ≠ []) (hcached : ∀ scope ∈ d.parent, CachedAbove D cache scope)
    (hhits : ∀ scope ∈ d.parent, namedAtHits cache named scope = true)
    (havoids : ∀ scope ∈ d.parent, avoidsSpecification cache scope = true)
    (h : (prependScopeNames D d name cache).2.find k = some v) :
    cache.find k = some v ∨
      ∃ scope ∈ d.parent, ∃ y, Above scope y ∧ k = y.offset ∧ v ++ scopeSeparator = joinParts (scopeParts D y) := by
  cases hp : d.parent with
  | none =>
    cases d with
    | unit e =>
      rw [prependScopeNames] at h
      exact .inl h
    | child e parent => cases hp
    | specified e specification parent => cases hp
  | some scope =>
    obtain ⟨hcache, hops⟩ := scopeNames_snd cache scope hnamed (hcached scope hp) (hhits scope hp) (havoids scope hp)
    rw [prependScopeNames_of_parent hp, hcache] at h
    rcases find_applyCacheOps _ _ h with h | ⟨op, hop, rfl, rfl⟩
    · exact .inl h
    · obtain ⟨y, hy, hoffset, hv⟩ := hops op hop
      exact .inr ⟨scope, rfl, y, hy, hoffset, hv⟩

/-! ## Queries -/

/-- The DIEs of a file: every link leads to one of them, and they have different offsets. -/
structure DieTree where
  dies : List Die
  offset_nodup : (dies.map Die.offset).Nodup
  parent_mem : ∀ d ∈ dies, ∀ scope ∈ d.parent, scope ∈ dies
  specification_mem : ∀ d ∈ dies, ∀ specification ∈ d.specificationDie, specification ∈ dies

namespace DieTree

variable (tree : DieTree)

/-- A DIE that others are in, other than a compile unit. -/
def IsScope (x : Die) : Prop := x.isUnit = false ∧ ∃ d ∈ tree.dies, d.parent = some x

instance (x : Die) : Decidable (tree.IsScope x) := inferInstanceAs (Decidable (_ ∧ _))

variable {tree}

theorem IsScope.mem {x : Die} (h : tree.IsScope x) : x ∈ tree.dies := by
  obtain ⟨-, d, hd, hparent⟩ := h
  exact tree.parent_mem d hd x hparent

theorem eq_of_offset {d d' : Die} (hd : d ∈ tree.dies) (hd' : d' ∈ tree.dies) (h : d.offset = d'.offset) : d = d' :=
  List.inj_on_of_nodup_map tree.offset_nodup hd hd' h

/-- **The walk comes to scopes only.** -/
theorem isScope_of_above {x y : Die} (h : Above x y) : (∃ d ∈ tree.dies, d.parent = some x) → tree.IsScope y := by
  induction h with
  | here hx => exact fun hd => ⟨hx, hd⟩
  | @parent e parent y _ ih =>
    rintro ⟨d, hd, hparent⟩
    exact ih ⟨_, tree.parent_mem d hd _ hparent, rfl⟩
  | @specification e specification parent scope y hscope _ ih =>
    rintro ⟨d, hd, hparent⟩
    have hspecification := tree.specification_mem _ (tree.parent_mem d hd _ hparent) specification rfl
    exact ih ⟨specification, hspecification, hscope⟩

end DieTree

theorem sizeOf_parent {d scope : Die} (h : scope ∈ d.parent) : sizeOf scope < sizeOf d := by
  cases d with
  | unit e => cases h
  | child e parent =>
    cases h
    rw [Die.child.sizeOf_spec]
    omega
  | specified e specification parent =>
    cases h
    rw [Die.specified.sizeOf_spec]
    omega

theorem Above.sizeOf_le {x y : Die} (h : Above x y) : sizeOf y ≤ sizeOf x := by
  induction h with
  | here _ => exact Nat.le_refl _
  | @parent e parent y _ ih =>
    have hlt : sizeOf parent < sizeOf (Die.child e parent) := sizeOf_parent rfl
    omega
  | @specification e specification parent scope y hscope _ ih =>
    have hlt := sizeOf_parent hscope
    rw [Die.specified.sizeOf_spec]
    omega

/-- The scopes of the name of `d` that the walk may come to. -/
def Die.start (d : Die) : Option Die := (d.specificationDie.getD d).parent

theorem Die.sizeOf_start {d scope : Die} (h : scope ∈ d.start) : sizeOf scope < sizeOf d := by
  cases d with
  | unit e => cases h
  | child e parent => exact sizeOf_parent h
  | specified e specification parent =>
    have hlt : sizeOf scope < sizeOf specification := sizeOf_parent h
    rw [Die.specified.sizeOf_spec]
    omega

namespace DieTree

variable {tree : DieTree} {d scope y : Die}

theorem isScope_of_start (hd : d ∈ tree.dies) (hscope : scope ∈ d.start) (hy : Above scope y) : tree.IsScope y := by
  refine isScope_of_above hy ?_
  cases hs : d.specificationDie with
  | some specification =>
    rw [Die.start, hs] at hscope
    exact ⟨specification, tree.specification_mem d hd specification hs, hscope⟩
  | none =>
    rw [Die.start, hs] at hscope
    exact ⟨d, hd, hscope⟩

/-- **A DIE is not among its own scopes.** -/
theorem offset_ne_of_start (hd : d ∈ tree.dies) (hscope : scope ∈ d.start) (hy : Above scope y) :
    y.offset ≠ d.offset := by
  intro h
  have hyd := eq_of_offset (isScope_of_start hd hscope hy).mem hd h
  have hle := hy.sizeOf_le
  have hlt := Die.sizeOf_start hscope
  rw [hyd] at hle
  omega

end DieTree

/-! ## A query -/

variable (D) in
/-- What holds of the cache between queries: it has the full names of scopes, and the names of other DIEs. -/
structure DieTree.Valid (tree : DieTree) (cache : DieNameCache) : Prop where
  scope : ∀ x, tree.IsScope x → ∀ v, cache.find x.offset = some v → v ++ scopeSeparator = joinParts (scopeParts D x)
  other : ∀ d ∈ tree.dies, ¬tree.IsScope d → ∀ v, cache.find d.offset = some v → v = demangle D (plainDieName D d)

variable (D) in
/-- What a query needs of the DIE and of the cache.  Unless its name is cached or fully qualified by itself, the walk
over its scopes does not go on at a specification, and comes to no cached scope without a name.  A DIE that others are
in has a name, which the demanglers leave as it is. -/
structure DieTree.Safe (tree : DieTree) (cache : DieNameCache) (d : Die) : Prop where
  walk : (cache.find d.offset).getD [] = [] → d.entry.linkageName = none → ∀ scope ∈ d.start,
    avoidsSpecification (cache.insert d.offset []) scope = true ∧
      namedAtHits (cache.insert d.offset []) (!(d.entry.name.getD []).isEmpty) scope = true
  own : tree.IsScope d → d.entry.linkageName = none →
    d.entry.name.isSome = true ∧ demangle D (plainDieName D d) = plainDieName D d

section Query

variable {tree : DieTree} {cache : DieNameCache} {d : Die}

theorem name_ne_nil_of_named {name : QByteArray} (h : (!name.isEmpty) = true) : name ≠ [] := by
  rintro rfl
  cases h

theorem qualifiedDieName_of_linkageName {name : QByteArray} (hl : d.entry.linkageName = some name)
    (cache : DieNameCache) : qualifiedDieName D d cache = (plainDieName D d, cache) := by
  rw [qualifiedDieName, plainDieName, hl]

theorem qualifiedDieName_fst (hcached : ∀ scope ∈ d.start, CachedAbove D cache scope)
    (hhits : ∀ scope ∈ d.start, namedAtHits cache (!(d.entry.name.getD []).isEmpty) scope = true) :
    (qualifiedDieName D d cache).1 = plainDieName D d := by
  cases hl : d.entry.linkageName with
  | some name => rw [qualifiedDieName_of_linkageName hl]
  | none =>
    rw [qualifiedDieName, plainDieName, hl]
    exact prependScopeNames_fst fun scope hscope =>
      scopeNames_fst cache scope name_ne_nil_of_named (hcached scope hscope) (hhits scope hscope)

theorem namedAtHits_of_miss {x : Die} : ∀ {named : Bool}, (∀ y, Above x y → cache.contains y.offset = false) →
    namedAtHits cache named x = true := by
  induction x using Die.scope_induction with
  | unit e =>
    intro named _
    rw [namedAtHits]
  | child e parent ih =>
    intro named h
    have hmiss : cache.contains e.offset = false := h _ (.here rfl)
    rw [namedAtHits, hmiss, ih fun y hy => h y (.parent hy)]
    simp
  | specified e specification parent ih =>
    intro named h
    have hmiss : cache.contains e.offset = false := h _ (.here rfl)
    have habove : ∀ named, namedAtHitsOf cache named specification = true := by
      intro named
      cases hp : specification.parent with
      | none =>
        cases specification with
        | unit e => rw [namedAtHitsOf]
        | child e parent => cases hp
        | specified e specification parent => cases hp
      | some scope =>
        rw [namedAtHitsOf_of_parent hp]
        exact ih scope hp fun y hy => h y (.specification hp hy)
    rw [namedAtHits, hmiss, habove]
    simp

/-- The scopes of a DIE are told apart from the DIE itself, whose entry is there before the walk. -/
theorem cachedAbove_own (hd : d ∈ tree.dies) (h : tree.Valid D cache) {scope : Die} (hscope : scope ∈ d.start) :
    CachedAbove D (cache.insert d.offset []) scope := by
  intro y hy v hv
  rw [QHash.find_insert_of_ne _ _ (DieTree.offset_ne_of_start hd hscope hy)] at hv
  exact h.scope y (DieTree.isScope_of_start hd hscope hy) v hv

theorem valid_nil : tree.Valid D [] where
  scope _ _ _ hv := nomatch hv
  other _ _ _ _ hv := nomatch hv

theorem scopeParts_of_none {x : Die} (hx : x.isUnit = false) (hl : x.entry.linkageName = none) :
    scopeParts D x = enclosingParts D (x.specificationDie.getD x) ++ x.entry.name.toList := by
  cases x with
  | unit e => cases hx
  | child e parent =>
    rw [scopeParts, show e.linkageName = none from hl]
    show _ = enclosingParts D (.child e parent) ++ _
    rw [enclosingParts]
    rfl
  | specified e specification parent =>
    rw [scopeParts, show e.linkageName = none from hl]
    rfl

theorem demangle_plainDieName (h : tree.Safe D cache d) (hscope : tree.IsScope d) :
    demangle D (plainDieName D d) ++ scopeSeparator = joinParts (scopeParts D d) := by
  cases hl : d.entry.linkageName with
  | some l => rw [scopeParts_of_linkageName hscope.1 hl, joinParts_singleton, plainDieName, hl]
  | none =>
    obtain ⟨hname, hdemangle⟩ := h.own hscope hl
    obtain ⟨n, hn⟩ := Option.isSome_iff_exists.1 hname
    rw [hdemangle, scopeParts_of_none hscope.1 hl, joinParts_append, plainDieName, hl, hn, Option.toList_some,
      joinParts_singleton, Option.getD_some, List.append_assoc]

theorem valid_insert {cache' : DieNameCache} (hd : d ∈ tree.dies) (hvalid : tree.Valid D cache)
    (hsafe : tree.Safe D cache d) (hcache' : ∀ k v, k ≠ d.offset → cache'.find k = some v →
      cache.find k = some v ∨ ∃ y, tree.IsScope y ∧ k = y.offset ∧ v ++ scopeSeparator = joinParts (scopeParts D y)) :
    tree.Valid D (cache'.insert d.offset (demangle D (plainDieName D d))) where
  scope x hx v hv := by
    rw [QHash.find_insert] at hv
    split at hv
    · rename_i hk
      obtain rfl := DieTree.eq_of_offset hx.mem hd hk
      rw [← Option.some.inj hv]
      exact demangle_plainDieName hsafe hx
    · rename_i hk
      rcases hcache' x.offset v hk hv with hv | ⟨y, hy, hoffset, hv⟩
      · exact hvalid.scope x hx v hv
      · rwa [DieTree.eq_of_offset hx.mem hy.mem hoffset]
  other x hx hscope v hv := by
    rw [QHash.find_insert] at hv
    split at hv
    · rename_i hk
      rw [← Option.some.inj hv, DieTree.eq_of_offset hx hd hk]
    · rename_i hk
      rcases hcache' x.offset v hk hv with hv | ⟨y, hy, hoffset, hv⟩
      · exact hvalid.other x hx hscope v hv
      · rw [DieTree.eq_of_offset hx hy.mem hoffset] at hscope
        exact absurd hy hscope

/-- **The name that an empty cache gives.** -/
theorem dieName_nil (hd : d ∈ tree.dies) : (dieName D d []).1 = demangle D (plainDieName D d) := by
  have hname := qualifiedDieName_fst (fun scope hscope => cachedAbove_own (D := D) hd valid_nil hscope)
    (fun scope hscope => namedAtHits_of_miss fun y hy => by
      rw [QHash.contains, QHash.find_insert_of_ne _ _ (DieTree.offset_ne_of_start hd hscope hy)]
      rfl)
  rw [dieName]
  exact congrArg (demangle D) hname

theorem find_qualifiedDieName (hd : d ∈ tree.dies) (hvalid : tree.Valid D cache) (hsafe : tree.Safe D cache d)
    (hmiss : (cache.find d.offset).getD [] = []) {k : UInt64} {v : QByteArray} (hk : k ≠ d.offset)
    (hv : (qualifiedDieName D d (cache.insert d.offset [])).2.find k = some v) :
    cache.find k = some v ∨
      ∃ y, tree.IsScope y ∧ k = y.offset ∧ v ++ scopeSeparator = joinParts (scopeParts D y) := by
  have hold : ∀ {v}, QHash.find (QHash.insert cache d.offset []) k = some v → cache.find k = some v := by
    intro v hv
    rwa [QHash.find_insert_of_ne _ _ hk] at hv
  cases hl : d.entry.linkageName with
  | some l =>
    rw [qualifiedDieName_of_linkageName hl] at hv
    exact .inl (hold hv)
  | none =>
    have hwalk := hsafe.walk hmiss hl
    rw [qualifiedDieName, hl] at hv
    rcases find_prependScopeNames name_ne_nil_of_named (fun scope hscope => cachedAbove_own hd hvalid hscope)
      (fun scope hscope => (hwalk scope hscope).2) (fun scope hscope => (hwalk scope hscope).1) hv with
      hv | ⟨scope, hscope, y, hy, hoffset, hv⟩
    · exact .inl (hold hv)
    · exact .inr ⟨y, DieTree.isScope_of_start hd hscope hy, hoffset, hv⟩

/-- **A safe query** gives the name that an empty cache gives, and keeps the cache valid. -/
theorem dieName_safe (hd : d ∈ tree.dies) (hvalid : tree.Valid D cache) (hsafe : tree.Safe D cache d) :
    (dieName D d cache).1 = (dieName D d []).1 ∧ tree.Valid D (dieName D d cache).2 := by
  rw [dieName_nil hd, dieName]
  by_cases hmiss : (cache.find d.offset).getD [] = []
  · have hname : (qualifiedDieName D d (cache.insert d.offset [])).1 = plainDieName D d := by
      cases hl : d.entry.linkageName with
      | some l => rw [qualifiedDieName_of_linkageName hl]
      | none =>
        exact qualifiedDieName_fst (fun scope hscope => cachedAbove_own hd hvalid hscope)
          (fun scope hscope => (hsafe.walk hmiss hl scope hscope).2)
    rw [hmiss]
    dsimp only [List.isEmpty_nil, if_true]
    rw [hname]
    exact ⟨rfl, valid_insert hd hvalid hsafe fun k v hk hv => find_qualifiedDieName hd hvalid hsafe hmiss hk hv⟩
  · obtain ⟨v, hv⟩ : ∃ v, cache.find d.offset = some v := by
      cases hf : cache.find d.offset with
      | some v => exact ⟨v, rfl⟩
      | none =>
        rw [hf] at hmiss
        exact absurd rfl hmiss
    have hne : v.isEmpty = false := by
      rw [hv, Option.getD_some] at hmiss
      exact List.isEmpty_eq_false_iff.2 hmiss
    rw [hv, Option.getD_some, hne]
    refine ⟨?_, hvalid⟩
    show v = _
    by_cases hscope : tree.IsScope d
    · exact List.append_cancel_right ((hvalid.scope d hscope v hv).trans (demangle_plainDieName hsafe hscope).symm)
    · exact hvalid.other d hd hscope v hv

end Query

/-! ## Runs of queries -/

variable (D) in
/-- Every query gives the name that an empty cache gives, and what is ever cached of a scope and not empty is its full
name. -/
structure DieTree.Memoised (tree : DieTree) (dies : List Die) : Prop where
  name : Always (fun ran d => (dieName D d (dieNameCache D ran)).1 = (dieName D d []).1) dies
  scope : ∀ ran, ran <+: dies → ∀ x, tree.IsScope x → ∀ v, (dieNameCache D ran).find x.offset = some v → v ≠ [] →
    v = fullScopeName D x

variable (D) in
theorem dieNameCache_snoc (dies : List Die) (d : Die) :
    dieNameCache D (dies ++ [d]) = (dieName D d (dieNameCache D dies)).2 := List.foldl_concat _ _ _ _

theorem valid_dieNameCache {tree : DieTree} : ∀ {dies : List Die}, (∀ d ∈ dies, d ∈ tree.dies) →
    Always (fun ran d => tree.Safe D (dieNameCache D ran) d) dies → tree.Valid D (dieNameCache D dies) := by
  intro dies
  induction dies using List.reverseRecOn with
  | nil => exact fun _ _ => valid_nil
  | append_singleton dies d ih =>
    intro hmem hsafe
    obtain ⟨hsafe, hd⟩ := History.always_snoc.1 hsafe
    rw [dieNameCache_snoc]
    exact (dieName_safe (hmem d (List.mem_append_right dies List.mem_cons_self))
      (ih (fun x hx => hmem x (List.mem_append_left [d] hx)) hsafe) hd).2

variable (D) in
/-- **Runs of safe queries are memoised.** -/
theorem dieNames_memoised (tree : DieTree) (dies : List Die) (hmem : ∀ d ∈ dies, d ∈ tree.dies)
    (hsafe : Always (fun ran d => tree.Safe D (dieNameCache D ran) d) dies) : tree.Memoised D dies where
  name := by
    refine hsafe.mono fun ran d post hdies hd => ?_
    have hran : ∀ x ∈ ran, x ∈ tree.dies := fun x hx => hmem x (by rw [hdies]; exact List.mem_append_left _ hx)
    have hvalid := valid_dieNameCache hran (hsafe.of_prefix ⟨d :: post, hdies.symm⟩)
    exact (dieName_safe (hmem d (by rw [hdies]; simp)) hvalid hd).1
  scope ran hran x hx v hv _ := by
    have hvalid := valid_dieNameCache (fun x hx => hmem x (hran.subset hx)) (hsafe.of_prefix hran)
    exact eq_intercalate_of_joinParts (hvalid.scope x hx v hv)

instance (tree : DieTree) (cache : DieNameCache) (d : Die) : Decidable (tree.Safe D cache d) :=
  decidable_of_iff (((cache.find d.offset).getD [] = [] → d.entry.linkageName = none → ∀ scope ∈ d.start,
      avoidsSpecification (cache.insert d.offset []) scope = true ∧
        namedAtHits (cache.insert d.offset []) (!(d.entry.name.getD []).isEmpty) scope = true) ∧
    (tree.IsScope d → d.entry.linkageName = none →
      d.entry.name.isSome = true ∧ demangle D (plainDieName D d) = plainDieName D d))
    ⟨fun h => ⟨h.1, h.2⟩, fun h => ⟨h.walk, h.own⟩⟩

/-! A class within a class, with two functions, and the same where the inner class is defined at file level. -/

def outerClass : Die := .child { offset := 11, name := some (QByteArray.ofString "Outer") } (.unit { offset := 0 })

def innerClass : Die := .child { offset := 12, name := some (QByteArray.ofString "Inner") } outerClass

def innerDefinition : Die :=
  .specified { offset := 13, name := some (QByteArray.ofString "Inner") } innerClass (.unit { offset := 0 })

def functionIn (offset : UInt64) (name : String) (scope : Die) : Die :=
  .child { offset := offset, name := some (QByteArray.ofString name) } scope

def nestedClass : DieTree where
  dies := [.unit { offset := 0 }, outerClass, innerClass, functionIn 14 "run" innerClass,
    functionIn 15 "stop" innerClass]
  offset_nodup := by decide
  parent_mem := by decide
  specification_mem := by decide

def nestedDefinition : DieTree where
  dies := [.unit { offset := 0 }, outerClass, innerClass, innerDefinition, functionIn 14 "run" innerDefinition,
    functionIn 15 "stop" innerDefinition]
  offset_nodup := by decide
  parent_mem := by decide
  specification_mem := by decide

theorem nestedClass_memoised :
    nestedClass.Memoised {} [functionIn 14 "run" innerClass, innerClass, functionIn 15 "stop" innerClass,
      functionIn 14 "run" innerClass] :=
  dieNames_memoised {} nestedClass _ (by decide) (by decide)

/-- The second function of the class is looked up through a name that was cached without the class. -/
theorem nestedDefinition_not_memoised :
    (dieName {} (functionIn 15 "stop" innerDefinition) []).1 = QByteArray.ofString "Outer::Inner::stop" ∧
      (dieName {} (functionIn 15 "stop" innerDefinition)
        (dieNameCache {} [functionIn 14 "run" innerDefinition])).1 = QByteArray.ofString "Outer::::stop" ∧
      ¬nestedDefinition.Memoised {}
        [functionIn 14 "run" innerDefinition, functionIn 15 "stop" innerDefinition] := by
  refine ⟨by decide, by decide, fun h => ?_⟩
  have hname := h.name [functionIn 14 "run" innerDefinition] (functionIn 15 "stop" innerDefinition) [] rfl
  exact absurd hname (by decide)

end Dwarf
end PerfParser
