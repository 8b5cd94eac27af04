import PerfParser.InlineChains
import PerfParser.Lib.TreeWalk
/-!
# InlineScopes — the DIEs of an address (`perfdwarfdiecache.cpp`)

The compilation unit of an address is found by its ranges, the subprogram in it by a walk over the unit that goes down
where scopes may be, and the inlined subroutines in that by a walk that leaves out what is in one without the address.
What is found is in preorder, and where inlined subroutines next to each other have no address in common each one is in
the one before it (`findInlineScopes_eq`).
-/
namespace PerfParser
namespace Dwarf

open TreeWalk

/-- `dwarf_tag`, as far as it matters. -/
inductive Tag
  | compileUnit
  | module
  | lexicalBlock
  | withStmt
  | catchBlock
  | tryBlock
  | entryPoint
  | inlinedSubroutine
  | subprogram
  | nameSpace
  | classType
  | structureType
  | other
deriving DecidableEq, Repr

structure DwarfRange where
  low : UInt64
  high : UInt64
deriving DecidableEq, Repr

def DwarfRange.contains (r : DwarfRange) (addr : UInt64) : Bool := r.low ≤ addr && addr < r.high

/-- What libdw tells of a DIE: its offset, its tag, the ranges that `dwarf_ranges` goes over, and what a lookup asks of
it. -/
structure DieInfo where
  offset : UInt64
  tag : Tag
  ranges : List DwarfRange := []
  info : PerfParser.Die := {}
deriving DecidableEq, Repr

/-- `Dwarf_Die`, from which `dwarf_child` and `dwarf_siblingof` get to the DIEs below it. -/
abbrev DwarfDie := Subtree DieInfo

section

variable {σ : Type}

/-- `walkDieTree`; `WalkResult::Return` is `WalkResult.stop`. -/
def walkDieTree (callback : DwarfDie → σ → WalkResult × σ) (die : DwarfDie) (s : σ) : WalkResult × σ :=
  die.walk callback s

/-- The loop of `walkRanges`, which the callback may leave. -/
def rangeLoop (callback : DwarfRange → σ → Bool × σ) : List DwarfRange → σ → σ
  | [], s => s
  | range :: ranges, s =>
    match callback range s with
    | (true, s) => rangeLoop callback ranges s
    | (false, s) => s

def walkRanges (callback : DwarfRange → σ → Bool × σ) (die : DwarfDie) (s : σ) : σ :=
  rangeLoop callback die.root.ranges s

end

def mayHaveScopes (die : DwarfDie) : Bool :=
  match die.root.tag with
  -- DIEs with addresses we can try to match
  | .compileUnit | .module | .lexicalBlock | .withStmt | .catchBlock | .tryBlock | .entryPoint | .inlinedSubroutine
  | .subprogram => true
  -- DIEs without addresses that can own DIEs with addresses
  | .nameSpace | .classType | .structureType => true
  | .other => false

def dieContainsAddress (die : DwarfDie) (address : UInt64) : Bool :=
  walkRanges (fun range contained => if range.contains address then (false, true) else (true, contained)) die false

def findInlineScopes (subprogram : DwarfDie) (offset : UInt64) : List DwarfDie :=
  (walkDieTree (fun die scopes =>
    if die.root.tag ≠ .inlinedSubroutine then (.recurse, scopes)
    else if dieContainsAddress die offset then (.recurse, scopes ++ [die])
    else (.skip, scopes)) subprogram []).2

/-! ## Units and subprograms -/

structure SubProgramDie where
  die : DwarfDie
  ranges : List DwarfRange
deriving DecidableEq, Repr

namespace SubProgramDie

/-- The constructor, with all ranges. -/
def make (die : DwarfDie) : SubProgramDie where
  die := die
  ranges := walkRanges (fun range ranges => (true, ranges ++ [range])) die []

def isEmpty (p : SubProgramDie) : Bool := p.ranges.isEmpty

def contains (p : SubProgramDie) (offset : UInt64) : Bool := p.ranges.any (fun range => range.contains offset)

end SubProgramDie

structure CuDieRangeMapping where
  bias : UInt64
  cudie : DwarfDie
  ranges : List DwarfRange
  subPrograms : List SubProgramDie := []
deriving DecidableEq, Repr

namespace CuDieRangeMapping

/-- The constructor, with the ranges as addresses. -/
def make (cudie : DwarfDie) (bias : UInt64) : CuDieRangeMapping where
  bias := bias
  cudie := cudie
  ranges := walkRanges (fun range ranges => (true, ranges ++ [⟨range.low + bias, range.high + bias⟩])) cudie []

def isEmpty (m : CuDieRangeMapping) : Bool := m.ranges.isEmpty

def contains (m : CuDieRangeMapping) (addr : UInt64) : Bool := m.ranges.any (fun range => range.contains addr)

def addSubprograms (m : CuDieRangeMapping) : CuDieRangeMapping :=
  { m with
    subPrograms := (walkDieTree (fun die subPrograms =>
      if !mayHaveScopes die then (.skip, subPrograms)
      else if die.root.tag = .subprogram then
        let program := SubProgramDie.make die
        (.skip, if program.isEmpty then subPrograms else subPrograms ++ [program])
      else (.recurse, subPrograms)) m.cudie m.subPrograms).2 }

/-- `findSubprogramDie`, which visits the unit on the first call. -/
def findSubprogramDie (m : CuDieRangeMapping) (offset : UInt64) : Option SubProgramDie × CuDieRangeMapping :=
  let m := if m.subPrograms.isEmpty then m.addSubprograms else m
  (m.subPrograms.find? (fun program => program.contains offset), m)

end CuDieRangeMapping

/-- `PerfDwarfDieCache`, of the units that `dwfl_module_nextcu` gives with their bias. -/
def perfDwarfDieCache (units : List (DwarfDie × UInt64)) : List CuDieRangeMapping :=
  (units.map (fun unit => CuDieRangeMapping.make unit.1 unit.2)).filter (fun m => !m.isEmpty)

def findCuDie (cuDieRanges : List CuDieRangeMapping) (addr : UInt64) : Option CuDieRangeMapping :=
  cuDieRanges.find? (fun m => m.contains addr)

/-! ## Ranges -/

/-- A DIE contains an address in one of its ranges. -/
def Contains (die : DwarfDie) (address : UInt64) : Prop := ∃ range ∈ die.root.ranges, range.contains address = true

instance (die : DwarfDie) (address : UInt64) : Decidable (Contains die address) :=
  inferInstanceAs (Decidable (∃ _ ∈ _, _))

/-- **The loop is left at the first range with the address**, which is as if it went over all. -/
theorem dieContainsAddress_iff (die : DwarfDie) (address : UInt64) :
    dieContainsAddress die address = true ↔ Contains die address := by
  unfold dieContainsAddress walkRanges Contains
  induction die.root.ranges with
  | nil => exact iff_of_false Bool.false_ne_true (fun ⟨_, h, _⟩ => nomatch h)
  | cons range ranges ih =>
    rw [rangeLoop, List.exists_mem_cons_iff]
    by_cases hrange : range.contains address = true
    · rw [if_pos hrange]
      exact iff_of_true rfl (.inl hrange)
    · rw [if_neg hrange]
      exact ih.trans (or_iff_right hrange).symm

theorem rangeLoop_collect (f : DwarfRange → DwarfRange) : ∀ ranges s : List DwarfRange,
    rangeLoop (fun range s => (true, s ++ [f range])) ranges s = s ++ ranges.map f
  | [], s => (List.append_nil s).symm
  | range :: ranges, s => by
    rw [rangeLoop]
    dsimp only
    rw [rangeLoop_collect f ranges, List.append_assoc]
    rfl

theorem SubProgramDie.make_ranges (die : DwarfDie) : (SubProgramDie.make die).ranges = die.root.ranges := by
  have hranges := rangeLoop_collect id die.root.ranges []
  rw [List.map_id, List.nil_append] at hranges
  exact hranges

theorem SubProgramDie.make_contains_iff (die : DwarfDie) (offset : UInt64) :
    (SubProgramDie.make die).contains offset = true ↔ Contains die offset := by
  rw [SubProgramDie.contains, SubProgramDie.make_ranges]
  exact List.any_eq_true

/-! ## Inline scopes -/

def IsInlined (die : DwarfDie) : Prop := die.root.tag = .inlinedSubroutine

instance (die : DwarfDie) : Decidable (IsInlined die) := inferInstanceAs (Decidable (_ = _))

/-- Neither of two DIEs is an ancestor of the other. -/
def Unrelated (a b : DwarfDie) : Prop := a ≠ b ∧ b ∉ a.below ∧ a ∉ b.below

instance (a b : DwarfDie) : Decidable (Unrelated a b) := inferInstanceAs (Decidable (_ ∧ _ ∧ _))

/-- The DIE of a subprogram.  All DIEs have offsets of their own. -/
structure Subprogram where
  die : DwarfDie
  isSubprogram : die.root.tag = .subprogram
  distinct : (die.nodes.map (fun d => d.root.offset)).Nodup

namespace Subprogram

theorem nodup (p : Subprogram) : p.die.below.Nodup := (List.nodup_cons.1 p.distinct.of_map).2

/-- An inlined subroutine of the subprogram with the offset, and in no other one without it. -/
def IsScope (p : Subprogram) (offset : UInt64) (die : DwarfDie) : Prop :=
  IsInlined die ∧ Contains die offset ∧ ∀ a ∈ p.die.below, IsInlined a → die ∈ a.below → Contains a offset

instance (p : Subprogram) (offset : UInt64) (die : DwarfDie) : Decidable (p.IsScope offset die) :=
  inferInstanceAs (Decidable (_ ∧ _ ∧ _))

/-- Two inlined subroutines have no address in common, if neither is in the other. -/
def ScopesDisjoint (p : Subprogram) : Prop :=
  ∀ a ∈ p.die.below, ∀ b ∈ p.die.below, IsInlined a → IsInlined b → Unrelated a b →
    ∀ r ∈ a.root.ranges, ∀ r' ∈ b.root.ranges, ∀ x, ¬(r.contains x = true ∧ r'.contains x = true)

end Subprogram

/-- Whether the walk over a subprogram goes on below a DIE. -/
def scopeResult (offset : UInt64) (die : DwarfDie) : WalkResult :=
  if IsInlined die ∧ ¬Contains die offset then .skip else .recurse

theorem scopeResult_eq_recurse {offset : UInt64} {die : DwarfDie} :
    scopeResult offset die = .recurse ↔ (IsInlined die → Contains die offset) := by
  unfold scopeResult
  split
  · rename_i h
    exact iff_of_false (by decide) (fun hall => h.2 (hall h.1))
  · rename_i h
    exact iff_of_true rfl (fun hinlined => by_contra fun hcontains => h ⟨hinlined, hcontains⟩)

theorem scopeResult_ne_stop (offset : UInt64) (die : DwarfDie) : scopeResult offset die ≠ .stop := by
  unfold scopeResult
  split <;> decide

/-- The callback of `findInlineScopes` looks at its DIE only. -/
theorem findInlineScopes_eq_walk (subprogram : DwarfDie) (offset : UInt64) :
    findInlineScopes subprogram offset = (subprogram.walk (fun die scopes => (scopeResult offset die,
      if IsInlined die ∧ Contains die offset then scopes ++ [id die] else scopes)) []).2 := by
  unfold findInlineScopes walkDieTree scopeResult
  congr 2
  funext die scopes
  simp only [dieContainsAddress_iff]
  by_cases hinlined : IsInlined die
  · have htag : die.root.tag = .inlinedSubroutine := hinlined
    rw [if_neg (not_not.2 htag)]
    by_cases hcontains : Contains die offset
    · rw [if_pos hcontains, if_neg (fun h => h.2 hcontains), if_pos ⟨hinlined, hcontains⟩]
      rfl
    · rw [if_neg hcontains, if_pos ⟨hinlined, hcontains⟩, if_neg (fun h => hcontains h.2)]
  · have htag : die.root.tag ≠ .inlinedSubroutine := hinlined
    rw [if_pos htag, if_neg (fun h => hinlined h.1), if_neg (fun h => hinlined h.1)]

/-- **The scopes that are found**, in preorder. -/
theorem findInlineScopes_eq_filter (p : Subprogram) (offset : UInt64) :
    findInlineScopes p.die offset = p.die.below.filter (p.IsScope offset) := by
  have hsubprogram : ¬IsInlined p.die := by
    rw [IsInlined, p.isSubprogram]
    decide
  have hrecurse : scopeResult offset p.die = .recurse := scopeResult_eq_recurse.2 (fun h => absurd h hsubprogram)
  rw [findInlineScopes_eq_walk]
  have hcollect := Subtree.walk_collect (scopeResult_ne_stop offset)
    (fun die => decide (IsInlined die ∧ Contains die offset)) id p.die []
  simp only [decide_eq_true_eq, List.nil_append, List.map_id] at hcollect
  rw [hcollect, Subtree.reached, if_pos hrecurse, List.filter_cons_of_neg (by simp [hsubprogram]),
    Forest.reached_eq_filter _ p.nodup, List.filter_filter]
  refine List.filter_congr (fun die _ => ?_)
  rw [← Bool.decide_and]
  refine decide_eq_decide.2 ?_
  unfold Forest.Leads Subprogram.IsScope
  simp only [scopeResult_eq_recurse, and_assoc]
  exact and_congr_right' (and_congr_right' (forall₂_congr fun a _ => imp.swap))

/-- Each scope is in the ones before it, if inlined subroutines next to each other are disjoint. -/
theorem findInlineScopes_pairwise {p : Subprogram} (hp : p.ScopesDisjoint) (offset : UInt64) :
    (findInlineScopes p.die offset).Pairwise (fun scope inner => inner ∈ scope.below) := by
  rw [findInlineScopes_eq_filter]
  refine Forest.chain_of_comparable p.nodup List.filter_sublist (fun t ht u hu hne => ?_)
  obtain ⟨ht, hscope⟩ := List.mem_filter.1 ht
  obtain ⟨hu, hscope'⟩ := List.mem_filter.1 hu
  obtain ⟨htinlined, ⟨r, hr, htcontains⟩, -⟩ := of_decide_eq_true hscope
  obtain ⟨huinlined, ⟨r', hr', hucontains⟩, -⟩ := of_decide_eq_true hscope'
  by_contra hneither
  rw [not_or] at hneither
  exact hp t ht u hu htinlined huinlined ⟨hne, hneither⟩ r hr r' hr' offset ⟨htcontains, hucontains⟩

theorem eq_or_of_getLast? {α : Type} {R : α → α → Prop} {l : List α} (h : l.Pairwise R) {last : α}
    (hlast : last ∈ l.getLast?) {a : α} (ha : a ∈ l) : a = last ∨ R a last := by
  obtain ⟨init, rfl⟩ := List.getLast?_eq_some_iff.1 (Option.mem_def.1 hlast)
  rcases List.mem_append.1 ha with ha | ha
  · exact .inr ((List.pairwise_append.1 h).2.2 a ha last (List.mem_singleton_self last))
  · exact .inl (List.mem_singleton.1 ha)

/-- **The inline scopes of an offset** are the inlined subroutines of the subprogram with the offset that are in no
other one without it, in preorder.  If no two that are next to each other have an address in common, each scope is in
the one before it and the last is the innermost. -/
theorem findInlineScopes_eq (p : Subprogram) (offset : UInt64) :
    findInlineScopes p.die offset = p.die.below.filter (fun die => IsInlined die ∧ Contains die offset ∧
        ∀ a ∈ p.die.below, IsInlined a → die ∈ a.below → Contains a offset) ∧
      (p.ScopesDisjoint →
        (findInlineScopes p.die offset).IsChain (fun scope inner => inner ∈ scope.below) ∧
          ∀ last ∈ (findInlineScopes p.die offset).getLast?, ∀ scope ∈ findInlineScopes p.die offset,
            scope = last ∨ last ∈ scope.below) := by
  refine ⟨findInlineScopes_eq_filter p offset, fun hp => ?_⟩
  have hpairwise := findInlineScopes_pairwise hp offset
  exact ⟨hpairwise.isChain, fun last hlast scope hscope => eq_or_of_getLast? hpairwise hlast hscope⟩

/-- Each range of one of them ends before each range of the other. -/
def RangesApart (a b : DwarfDie) : Prop :=
  ∀ r ∈ a.root.ranges, ∀ r' ∈ b.root.ranges, r.high ≤ r'.low ∨ r'.high ≤ r.low

instance (a b : DwarfDie) : Decidable (RangesApart a b) := inferInstanceAs (Decidable (∀ _ ∈ _, ∀ _ ∈ _, _))

theorem Subprogram.scopesDisjoint_of_apart {p : Subprogram} (h : ∀ a ∈ p.die.below, ∀ b ∈ p.die.below,
    IsInlined a → IsInlined b → Unrelated a b → RangesApart a b) : p.ScopesDisjoint := by
  intro a ha b hb hainlined hbinlined hunrelated r hr r' hr' x
  simp only [DwarfRange.contains, Bool.and_eq_true, decide_eq_true_eq]
  rintro ⟨⟨hlow, hhigh⟩, hlow', hhigh'⟩
  rcases h a ha b hb hainlined hbinlined hunrelated r hr r' hr' with h | h
  · exact absurd (UInt64.lt_of_lt_of_le hhigh (UInt64.le_trans h hlow')) (UInt64.lt_irrefl x)
  · exact absurd (UInt64.lt_of_lt_of_le hhigh' (UInt64.le_trans h hlow)) (UInt64.lt_irrefl x)

/-- In a block two inlined subroutines, one behind the other, the first with a third one in a block of its own. -/
def nestedScopes : Subprogram where
  die := ⟨{ offset := 1, tag := .subprogram, ranges := [⟨0x00, 0x80⟩] },
    .tree { offset := 2, tag := .lexicalBlock }
      (.tree { offset := 3, tag := .inlinedSubroutine, ranges := [⟨0x10, 0x18⟩, ⟨0x20, 0x40⟩] }
        (.tree { offset := 4, tag := .lexicalBlock }
          (.tree { offset := 5, tag := .inlinedSubroutine, ranges := [⟨0x24, 0x30⟩] } .nil .nil) .nil)
        (.tree { offset := 6, tag := .inlinedSubroutine, ranges := [⟨0x50, 0x60⟩] } .nil .nil)) .nil⟩
  isSubprogram := rfl
  distinct := by decide

theorem nestedScopes_disjoint : nestedScopes.ScopesDisjoint :=
  Subprogram.scopesDisjoint_of_apart (by decide)

theorem findInlineScopes_eq_nested :
    (findInlineScopes nestedScopes.die 0x25).map (fun die => die.root.offset) = [3, 5] ∧
      ∀ last ∈ (findInlineScopes nestedScopes.die 0x25).getLast?, ∀ scope ∈ findInlineScopes nestedScopes.die 0x25,
        scope = last ∨ last ∈ scope.below :=
  ⟨by decide, ((findInlineScopes_eq nestedScopes 0x25).2 nestedScopes_disjoint).2⟩

/-- The last scope, or the subprogram if there is none. -/
def Subprogram.innermost (p : Subprogram) (offset : UInt64) : DwarfDie :=
  (findInlineScopes p.die offset).getLast?.getD p.die

/-- **The innermost function** has the offset, and all scopes are above it. -/
theorem Subprogram.innermost_spec (p : Subprogram) {offset : UInt64} (h : Contains p.die offset) :
    p.innermost offset ∈ p.die.nodes ∧ Contains (p.innermost offset) offset ∧
      (p.ScopesDisjoint → ∀ scope ∈ p.die.below, p.IsScope offset scope →
        scope = p.innermost offset ∨ p.innermost offset ∈ scope.below) := by
  have hpairwise (hp : p.ScopesDisjoint) := findInlineScopes_pairwise hp offset
  unfold innermost
  rw [findInlineScopes_eq_filter] at hpairwise ⊢
  have hscopes {scope : DwarfDie} (hbelow : scope ∈ p.die.below) (hscope : p.IsScope offset scope) :
      scope ∈ p.die.below.filter (p.IsScope offset) := List.mem_filter.2 ⟨hbelow, decide_eq_true hscope⟩
  cases hlast : (p.die.below.filter (p.IsScope offset)).getLast? with
  | none =>
    refine ⟨List.mem_cons_self, h, fun _ scope hbelow hscope => ?_⟩
    have hmem := hscopes hbelow hscope
    rw [List.getLast?_eq_none_iff.1 hlast] at hmem
    cases hmem
  | some last =>
    obtain ⟨hbelow, hscope⟩ := List.mem_filter.1 (List.mem_of_getLast? hlast)
    refine ⟨List.mem_cons_of_mem _ hbelow, (of_decide_eq_true hscope).2.1, fun hp scope hbelow hscope => ?_⟩
    exact eq_or_of_getLast? (hpairwise hp) hlast (hscopes hbelow hscope)

/-! ## Subprograms of a unit -/

/-- Whether the walk over a unit goes on below a DIE. -/
def subprogramResult (die : DwarfDie) : WalkResult :=
  if mayHaveScopes die = true ∧ die.root.tag ≠ .subprogram then .recurse else .skip

theorem subprogramResult_eq_recurse {die : DwarfDie} :
    subprogramResult die = .recurse ↔ mayHaveScopes die = true ∧ die.root.tag ≠ .subprogram := by
  unfold subprogramResult
  split
  · exact iff_of_true rfl ‹_›
  · exact iff_of_false (by decide) ‹_›

theorem subprogramResult_ne_stop (die : DwarfDie) : subprogramResult die ≠ .stop := by
  unfold subprogramResult
  split <;> decide

namespace CuDieRangeMapping

/-- The callback of `addSubprograms` looks at its DIE only. -/
theorem addSubprograms_eq_walk (m : CuDieRangeMapping) : m.addSubprograms.subPrograms =
    (m.cudie.walk (fun die subPrograms => (subprogramResult die,
      if die.root.tag = .subprogram ∧ die.root.ranges ≠ [] then subPrograms ++ [SubProgramDie.make die]
      else subPrograms)) m.subPrograms).2 := by
  unfold addSubprograms walkDieTree subprogramResult
  dsimp only
  congr 2
  funext die subPrograms
  simp only [SubProgramDie.isEmpty, SubProgramDie.make_ranges, List.isEmpty_iff]
  by_cases htag : die.root.tag = .subprogram
  · have hscopes : mayHaveScopes die = true := by
      rw [mayHaveScopes, htag]
    simp only [hscopes, htag]
    by_cases hranges : die.root.ranges = [] <;> simp [hranges]
  · cases hscopes : mayHaveScopes die <;> simp [htag]

/-- **The subprograms of a unit**, in preorder: those with ranges that are in no other one and in DIEs only that may
have scopes. -/
theorem addSubprograms_eq (m : CuDieRangeMapping) (hm : (m.cudie.nodes.map (fun d => d.root.offset)).Nodup) :
    m.addSubprograms.subPrograms = m.subPrograms ++ (m.cudie.nodes.filter (fun die =>
      (die.root.tag = .subprogram ∧ die.root.ranges ≠ []) ∧
        ∀ a ∈ m.cudie.nodes, die ∈ a.below → mayHaveScopes a = true ∧ a.root.tag ≠ .subprogram)).map
          SubProgramDie.make := by
  have hcollect := Subtree.walk_collect subprogramResult_ne_stop
    (fun die => decide (die.root.tag = .subprogram ∧ die.root.ranges ≠ [])) SubProgramDie.make m.cudie m.subPrograms
  simp only [decide_eq_true_eq] at hcollect
  rw [addSubprograms_eq_walk, hcollect, Subtree.reached_eq_filter _ hm.of_map, List.filter_filter]
  simp only [subprogramResult_eq_recurse, Bool.decide_and]

/-- What `findSubprogramDie` searches does not depend on the queries before. -/
structure Visited (m m' : CuDieRangeMapping) : Prop where
  cudie : m'.cudie = m.cudie
  subPrograms : m'.subPrograms = [] ∨ m'.subPrograms = m.addSubprograms.subPrograms

theorem visited_findSubprogramDie {m m' : CuDieRangeMapping} (hm : m.subPrograms = []) (h : Visited m m')
    (offset : UInt64) : Visited m (m'.findSubprogramDie offset).2 ∧
      (m'.findSubprogramDie offset).1 =
        m.addSubprograms.subPrograms.find? (fun program => program.contains offset) := by
  have hadd (hempty : m'.subPrograms = []) : m'.addSubprograms.subPrograms = m.addSubprograms.subPrograms := by
    unfold addSubprograms
    rw [h.cudie, hempty, hm]
  unfold findSubprogramDie
  dsimp only
  by_cases hempty : m'.subPrograms = []
  · rw [if_pos (List.isEmpty_iff.2 hempty), hadd hempty]
    exact ⟨⟨h.cudie, .inr (hadd hempty)⟩, rfl⟩
  · rw [if_neg (fun h => hempty (List.isEmpty_iff.1 h)), h.subPrograms.resolve_left hempty]
    exact ⟨h, rfl⟩

/-- The mapping after queries. -/
def after (m : CuDieRangeMapping) (offsets : List UInt64) : CuDieRangeMapping :=
  offsets.foldl (fun m offset => (m.findSubprogramDie offset).2) m

theorem visited_after {m : CuDieRangeMapping} (hm : m.subPrograms = []) : ∀ (offsets : List UInt64)
    {m' : CuDieRangeMapping}, Visited m m' → Visited m (m'.after offsets)
  | [], _, h => h
  | offset :: offsets, _, h => visited_after hm offsets (visited_findSubprogramDie hm h offset).1

/-- **The subprogram of an offset**, after any queries: the first of the unit that has the offset. -/
theorem findSubprogramDie_after (cudie : DwarfDie) (bias : UInt64) (offsets : List UInt64) (offset : UInt64) :
    (((make cudie bias).after offsets).findSubprogramDie offset).1 =
      (make cudie bias).addSubprograms.subPrograms.find? (fun program => program.contains offset) :=
  (visited_findSubprogramDie rfl (visited_after rfl offsets ⟨rfl, .inl rfl⟩) offset).2

theorem findSubprogramDie_spec {cudie : DwarfDie} (hcudie : (cudie.nodes.map (fun d => d.root.offset)).Nodup)
    {bias : UInt64} {offsets : List UInt64} {offset : UInt64} {program : SubProgramDie}
    (h : (((make cudie bias).after offsets).findSubprogramDie offset).1 = some program) :
    ∃ p : Subprogram, p.die ∈ cudie.nodes ∧ program = SubProgramDie.make p.die ∧ Contains p.die offset := by
  rw [findSubprogramDie_after, addSubprograms_eq _ hcudie] at h
  have hcontains := List.find?_some h
  obtain ⟨die, hdie, rfl⟩ := List.mem_map.1 (List.mem_of_find?_eq_some h)
  obtain ⟨hmem, hcond⟩ := List.mem_filter.1 hdie
  have htag := (of_decide_eq_true hcond).1.1
  exact ⟨⟨die, htag, hcudie.sublist ((Subtree.nodes_sublist hmem).map _)⟩, hmem, rfl,
    (SubProgramDie.make_contains_iff die offset).1 hcontains⟩

/-! ## What a lookup reads -/

end CuDieRangeMapping

/-- A DIE as a lookup reads it. -/
def toDie (die : DwarfDie) : PerfParser.Die := { die.root.info with isInlined := decide (IsInlined die) }

namespace CuDieRangeMapping

/-- The subprogram and the inline scopes of an offset, which a lookup goes on with. -/
def subprogram (m : CuDieRangeMapping) (offset : UInt64) : Option SubprogramDie :=
  (m.findSubprogramDie offset).1.map (fun program =>
    { die := toDie program.die, scopes := (findInlineScopes program.die offset).map toDie })

/-- **A lookup names the innermost function.** -/
theorem subprogram_innermost {cudie : DwarfDie} (hcudie : (cudie.nodes.map (fun d => d.root.offset)).Nodup)
    {bias : UInt64} (offsets : List UInt64) {offset : UInt64} {s : SubprogramDie}
    (h : ((make cudie bias).after offsets).subprogram offset = some s) :
    ∃ p : Subprogram, p.die ∈ cudie.nodes ∧ Contains p.die offset ∧ s.die = toDie p.die ∧
      s.scopes = (p.die.below.filter (p.IsScope offset)).map toDie ∧ s.innermost = toDie (p.innermost offset) := by
  obtain ⟨program, hprogram, rfl⟩ := Option.map_eq_some_iff.1 h
  obtain ⟨p, hmem, rfl, hcontains⟩ := findSubprogramDie_spec hcudie hprogram
  refine ⟨p, hmem, hcontains, rfl, congrArg (List.map toDie) (findInlineScopes_eq_filter p offset), ?_⟩
  show (List.map toDie (findInlineScopes p.die offset)).getLast?.getD (toDie p.die) = _
  rw [Subprogram.innermost, List.getLast?_map]
  cases (findInlineScopes p.die offset).getLast? <;> rfl

end CuDieRangeMapping

/-! ## Units -/

theorem DwarfRange.contains_of_biased {range : DwarfRange} {bias addr : UInt64}
    (hlow : range.low.toNat + bias.toNat < UInt64.size) (hhigh : range.high.toNat + bias.toNat < UInt64.size)
    (h : (⟨range.low + bias, range.high + bias⟩ : DwarfRange).contains addr = true) :
    range.contains (addr - bias) = true := by
  simp only [contains, Bool.and_eq_true, decide_eq_true_eq, UInt64.le_iff_toNat_le, UInt64.lt_iff_toNat_lt,
    UInt64.toNat_add, UInt64.toNat_sub, Nat.mod_eq_of_lt hlow, Nat.mod_eq_of_lt hhigh] at h ⊢
  have haddr := addr.toNat_lt
  omega

/-- **The unit of an address** has the offset that is looked up in it, if none of its ranges wraps around. -/
theorem findCuDie_spec {units : List (DwarfDie × UInt64)} {addr : UInt64} {m : CuDieRangeMapping}
    (h : findCuDie (perfDwarfDieCache units) addr = some m)
    (hwraps : ∀ range ∈ m.cudie.root.ranges, range.low.toNat + m.bias.toNat < UInt64.size ∧
      range.high.toNat + m.bias.toNat < UInt64.size) :
    ∃ unit ∈ units, m = CuDieRangeMapping.make unit.1 unit.2 ∧ Contains unit.1 (addr - unit.2) := by
  have hcontains := List.find?_some h
  obtain ⟨unit, hunit, rfl⟩ := List.mem_map.1 (List.mem_filter.1 (List.mem_of_find?_eq_some h)).1
  refine ⟨unit, hunit, rfl, ?_⟩
  have hranges := rangeLoop_collect (fun range => ⟨range.low + unit.2, range.high + unit.2⟩) unit.1.root.ranges []
  rw [CuDieRangeMapping.contains, CuDieRangeMapping.make, walkRanges, hranges, List.nil_append, List.any_map,
    List.any_eq_true] at hcontains
  obtain ⟨range, hrange, hrangecontains⟩ := hcontains
  obtain ⟨hlow, hhigh⟩ := hwraps range hrange
  exact ⟨range, hrange, DwarfRange.contains_of_biased hlow hhigh hrangecontains⟩

/-- The compilation unit of an address, as a lookup reads it. -/
def cuDieOf (cuDieRanges : List CuDieRangeMapping) (sourceLocation : DwarfDie → UInt64 → Option SourceLocation)
    (addr : UInt64) : Option CuDie :=
  (findCuDie cuDieRanges addr).map (fun m =>
    { bias := m.bias, sourceLocation := sourceLocation m.cudie, subprogram := m.subprogram })

/-- **The function of an address** is the innermost of a subprogram of its unit with the address, and all scopes with
the address are above it. -/
theorem cuDieOf_innermost {units : List (DwarfDie × UInt64)}
    (hunits : ∀ unit ∈ units, (unit.1.nodes.map (fun d => d.root.offset)).Nodup)
    {sourceLocation : DwarfDie → UInt64 → Option SourceLocation} {addr : UInt64} {cudie : CuDie} {s : SubprogramDie}
    (h : cuDieOf (perfDwarfDieCache units) sourceLocation addr = some cudie)
    (hs : cudie.subprogram (addr - cudie.bias) = some s) :
    ∃ unit ∈ units, ∃ p : Subprogram, p.die ∈ unit.1.nodes ∧ Contains p.die (addr - unit.2) ∧
      ∃ die ∈ p.die.nodes, s.innermost = toDie die ∧ Contains die (addr - unit.2) ∧
        (p.ScopesDisjoint → ∀ scope ∈ p.die.below, p.IsScope (addr - unit.2) scope →
          scope = die ∨ die ∈ scope.below) := by
  obtain ⟨m, hm, rfl⟩ := Option.map_eq_some_iff.1 h
  obtain ⟨unit, hunit, rfl⟩ := List.mem_map.1 (List.mem_filter.1 (List.mem_of_find?_eq_some hm)).1
  obtain ⟨p, hmem, hcontains, -, -, hinnermost⟩ :=
    CuDieRangeMapping.subprogram_innermost (hunits unit hunit) [] hs
  obtain ⟨hnodes, hinside, habove⟩ := p.innermost_spec hcontains
  exact ⟨unit, hunit, p, hmem, hcontains, p.innermost _, hnodes, hinnermost, hinside, habove⟩

end Dwarf
end PerfParser
