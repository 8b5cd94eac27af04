import PerfParser.SymbolNames
/-!
# LocationNames — the name of a location, read off the lookups

A lookup that the cache has no answer for asks for two locations, its function's and its own, and for a symbol of the
function's.  Whichever lookup asked for a location first has settled its parent, and whichever asked first for a
function its symbol: `reported` reads the name that a location is reported with off the list of what was asked
(`Told.nameOf`).
-/
namespace PerfParser

/-- What a lookup asks for: two locations without parents yet, and a name for the first. -/
structure Asked where
  function : Location
  address : Location
  name : QByteArray
  function_key : function.key = function
  address_key : address.key = address
deriving DecidableEq

/-- A location, with the location of its parent. -/
abbrev Place := Location × Option Location

namespace Asked

def places (a : Asked) : List Place := [(a.function, none), (a.address, some a.function)]

/-- The parent that a location got when it was first asked for. -/
def parent? (asked : List Asked) (location : Location) : Option Location :=
  ((asked.flatMap places).find? (fun p => p.1 = location)).bind Prod.snd

/-- The name that was first asked for a function. -/
def nameOf? (asked : List Asked) (function : Location) : Option QByteArray :=
  (asked.find? (fun a => a.function = function)).map name

/-- The name that a location is reported with. -/
def reported (asked : List Asked) (location : Location) : Option QByteArray :=
  (parent? asked location).bind (nameOf? asked)

end Asked

/-! ## Locations and their parents -/

/-- The entry of a parent, or none. -/
def ParentOf (t : Interner Location.key) (l : Location) : Option Location → Prop
  | none => l.parentLocationId = -1
  | some parent => ∃ l', t.get? l.parentLocationId = some l' ∧ l'.key = parent

theorem ParentOf.mono {t t' : Interner Location.key} (hle : t.Le t') {l : Location} : ∀ {parent : Option Location},
    ParentOf t l parent → ParentOf t' l parent
  | none, h => h
  | some _, ⟨l', hl', hkey⟩ => ⟨l', hle.get? hl', hkey⟩

/-- The locations are those of the places, each with the parent it had first. -/
structure Placed (t : Interner Location.key) (places : List Place) : Prop where
  interned : ∀ p ∈ places, ∃ l ∈ t.entries, l.key = p.1
  parents : ∀ l ∈ t.entries, ∃ p, places.find? (fun p => p.1 = l.key) = some p ∧ ParentOf t l p.2

theorem Placed.resolve {t : Interner Location.key} {places : List Place} (h : Placed t places) {l : Location}
    {parent : Option Location} (hparent : ParentOf t l parent) :
    Placed (t.resolve l).2 (places ++ [(l.key, parent)]) := by
  have hle := Interner.le_resolve t l
  have hold : ∀ l' ∈ t.entries, ∃ p, (places ++ [(l.key, parent)]).find? (fun p => p.1 = l'.key) = some p ∧
      ParentOf (t.resolve l).2 l' p.2 := by
    intro l' hl'
    obtain ⟨p, hfind, hp⟩ := h.parents l' hl'
    exact ⟨p, by rw [List.find?_append, hfind, Option.some_or], hp.mono hle⟩
  refine ⟨fun p hp => ?_, fun l' hl' => ?_⟩
  · rcases List.mem_append.1 hp with hp | hp
    · obtain ⟨l', hl', hkey⟩ := h.interned p hp
      exact ⟨l', hle.subset hl', hkey⟩
    · rw [List.mem_singleton.1 hp]
      obtain ⟨l', hl', hkey⟩ := Interner.get?_resolve t l
      exact ⟨l', Interner.mem_of_get? hl', hkey⟩
  · cases hlookup : t.lookup l with
    | some i =>
      rw [Interner.resolve_of_some hlookup] at hl'
      exact hold l' hl'
    | none =>
      rw [Interner.resolve_of_none hlookup] at hl'
      rcases List.mem_append.1 hl' with hl' | hl'
      · exact hold l' hl'
      · rw [List.mem_singleton.1 hl']
        -- no place has its key yet
        have hnone : places.find? (fun p => p.1 = l.key) = none := by
          rw [List.find?_eq_none]
          intro p hp hkey
          obtain ⟨l'', hl'', hkey'⟩ := h.interned p hp
          exact Interner.lookup_eq_none.1 hlookup l'' hl'' (hkey'.trans (of_decide_eq_true hkey))
        refine ⟨(l.key, parent), ?_, hparent.mono hle⟩
        rw [List.find?_append, hnone, Option.none_or, List.find?_singleton, if_pos (decide_eq_true rfl)]

/-! ## What was told -/

/-- The definitions after lookups that asked for these locations and names. -/
structure Told (asked : List Asked) (d : Definitions) : Prop where
  placed : Placed d.locations (asked.flatMap Asked.places)
  owners : ∀ id, d.hasSymbol id = true → ∃ l, d.locations.get? id = some l ∧ ∃ a ∈ asked, a.function = l.key
  names : ∀ id l, d.locations.get? id = some l → d.nameAt id = Asked.nameOf? asked l.key

theorem Told.nameAt_none {asked : List Asked} {d : Definitions} (h : Told asked d) : d.nameAt (-1) = none := by
  unfold Definitions.nameAt
  cases hs : d.symbols.find (-1) with
  | none => rfl
  | some symbol =>
    obtain ⟨l, hl, -⟩ := h.owners (-1) (by rw [Definitions.hasSymbol, QHash.contains, hs]; rfl)
    obtain ⟨i, hi, -⟩ := Interner.get?_lt hl
    omega

/-- **A location is reported with the name of the first function of its first lookup.** -/
theorem Told.nameOf {asked : List Asked} {d : Definitions} (h : Told asked d) {id : Int} {l : Location}
    (hl : d.locations.get? id = some l) : d.nameOf id = Asked.reported asked l.key := by
  obtain ⟨p, hfind, hparent⟩ := h.placed.parents l (Interner.mem_of_get? hl)
  rw [Definitions.nameOf, hl, Option.bind_some, Asked.reported, Asked.parent?, hfind, Option.bind_some]
  obtain ⟨place, parent⟩ := p
  cases parent with
  | none =>
    rw [show l.parentLocationId = -1 from hparent, h.nameAt_none]
    rfl
  | some f =>
    obtain ⟨l', hl', rfl⟩ := hparent
    exact h.names _ l' hl'

theorem told_empty : Told [] {} where
  placed := ⟨fun p hp => (by cases hp), fun l hl => (by cases hl)⟩
  owners id h := by cases h
  names id l h := by
    obtain ⟨i, rfl, hi⟩ := Interner.get?_lt h
    cases hi

theorem Asked.nameOf?_of_mem {asked : List Asked} {a : Asked} (ha : a ∈ asked) :
    ∃ n, Asked.nameOf? asked a.function = some n := by
  obtain ⟨a', hfind⟩ := Option.isSome_iff_exists.1
    (List.find?_isSome (p := fun a' => decide (a'.function = a.function)) |>.2 ⟨a, ha, decide_eq_true rfl⟩)
  exact ⟨a'.name, by rw [Asked.nameOf?, hfind, Option.map_some]⟩

theorem Told.nameAt_of_hasSymbol {asked : List Asked} {d : Definitions} (h : Told asked d) {id : Int}
    (hs : d.hasSymbol id = true) : ∃ n, d.nameAt id = some n := by
  obtain ⟨l, hl, a, ha, hkey⟩ := h.owners id hs
  obtain ⟨n, hn⟩ := Asked.nameOf?_of_mem ha
  exact ⟨n, by rw [h.names id l hl, ← hkey, hn]⟩

theorem Told.nameAt_of_le {asked : List Asked} {d d' : Definitions} (h : Told asked d) (hle : d.Le d') {id : Int}
    (hsymbol : d'.symbols.find id = d.symbols.find id) : d'.nameAt id = d.nameAt id := by
  cases hs : d.symbols.find id with
  | none => rw [Definitions.nameAt, hsymbol, Definitions.nameAt, hs]; rfl
  | some symbol =>
    have hthere : d.hasSymbol id = true := by rw [Definitions.hasSymbol, QHash.contains, hs]; rfl
    obtain ⟨n, hn⟩ := h.nameAt_of_hasSymbol hthere
    rw [hn, hle.nameAt hn]

theorem Told.strings {asked : List Asked} {d d' : Definitions} (h : Told asked d) (hle : d.Le d')
    (hlocations : d'.locations = d.locations) (hsymbols : d'.symbols = d.symbols) : Told asked d' := by
  refine ⟨by rw [hlocations]; exact h.placed, fun id hid => ?_, fun id l hl => ?_⟩
  · rw [hlocations]
    exact h.owners id (by rwa [Definitions.hasSymbol, ← hsymbols])
  · rw [hlocations] at hl
    rw [h.nameAt_of_le hle (by rw [hsymbols]), h.names id l hl]

/-- The location of a function that was asked for before is there, with its symbol. -/
theorem Told.hasSymbol_function {asked : List Asked} {d : Definitions} (h : Told asked d) {a : Asked} (ha : a ∈ asked) :
    ∃ id l, d.locations.get? id = some l ∧ l.key = a.function ∧ d.hasSymbol id = true := by
  obtain ⟨l, hl, hkey⟩ := h.placed.interned (a.function, none)
    (List.mem_flatMap.2 ⟨a, ha, List.mem_cons_self⟩)
  obtain ⟨i, hi⟩ := Interner.get?_of_mem hl
  refine ⟨i, l, hi, hkey, ?_⟩
  obtain ⟨n, hn⟩ := Asked.nameOf?_of_mem ha
  have hname := h.names i l hi
  rw [hkey, hn] at hname
  obtain ⟨symbol, hs, -⟩ := Option.bind_eq_some_iff.1 hname
  rw [Definitions.hasSymbol, QHash.contains, hs]
  rfl

section Define

variable {asked : List Asked} {d : Definitions} {a : Asked} {symbol : Int → Symbol}

theorem Told.nameAt_function (h : Told asked d) (hname : ∀ i, (symbol i).name = i) :
    (d.define a.function a.address a.name symbol).2.nameAt (d.parentId a.function) =
      Asked.nameOf? (asked ++ [a]) a.function := by
  obtain ⟨l, hl, hkey⟩ := d.get?_define_function a.function a.address a.name symbol
  rw [Asked.nameOf?, List.find?_append]
  cases hs : d.hasSymbol (d.parentId a.function) with
  | true =>
    obtain ⟨l', hl', a', ha', hkey'⟩ := h.owners _ hs
    obtain ⟨n, hn⟩ := h.nameAt_of_hasSymbol hs
    have hsame : l' = l := Option.some.inj (((d.define_le _ _ a.name symbol).locations.get? hl').symm.trans hl)
    rw [hsame] at hl'
    have hnames := h.names _ l hl'
    rw [hn, hkey, a.function_key, Asked.nameOf?] at hnames
    obtain ⟨a'', hfind, rfl⟩ := Option.map_eq_some_iff.1 hnames.symm
    rw [hfind, Option.some_or, Option.map_some, (d.define_le _ _ a.name symbol).nameAt hn]
  | false =>
    have hnone : asked.find? (fun a' => a'.function = a.function) = none := by
      rw [List.find?_eq_none]
      intro a' ha' hkey'
      obtain ⟨id, l', hl', hkey'', hs'⟩ := h.hasSymbol_function ha'
      have hid := Interner.get?_inj ((d.define_le _ _ a.name symbol).locations.get? hl') hl
        (by rw [hkey'', of_decide_eq_true hkey', hkey, a.function_key])
      rw [hid, hs] at hs'
      cases hs'
    rw [hnone, Option.none_or, List.find?_singleton, if_pos (decide_eq_true rfl)]
    exact Definitions.nameAt_define hs _ _ hname

theorem Told.nameAt_other (h : Told asked d) {id : Int} (hid : id ≠ d.parentId a.function) {l : Location}
    (hl : (d.define a.function a.address a.name symbol).2.locations.get? id = some l) :
    (d.define a.function a.address a.name symbol).2.nameAt id = Asked.nameOf? asked l.key := by
  have hle := d.define_le a.function a.address a.name symbol
  have hsymbol : (d.define a.function a.address a.name symbol).2.symbols.find id = d.symbols.find id := by
    cases hs : d.symbols.find id with
    | some symbol' => exact hle.symbols id symbol' hs
    | none =>
      cases hs' : (d.define a.function a.address a.name symbol).2.symbols.find id with
      | none => rfl
      | some symbol' =>
        rcases Definitions.find_define hs' with hold | hself
        · rw [hs] at hold
          cases hold
        · exact absurd hself hid
  rw [h.nameAt_of_le hle hsymbol]
  cases hfind : asked.find? (fun a' => a'.function = l.key) with
  | some a' =>
    -- its function was asked for, so the location was there before
    obtain ⟨id', l', hl', hkey, -⟩ := h.hasSymbol_function (List.mem_of_find?_eq_some hfind)
    have hkey : l'.key = l.key := hkey.trans (of_decide_eq_true (List.find?_some hfind :))
    have hsame := Interner.get?_inj (hle.locations.get? hl') hl hkey
    rw [h.names id l' (hsame ▸ hl'), hkey]
  | none =>
    rw [Asked.nameOf?, hfind, Option.map_none]
    cases hs : d.symbols.find id with
    | none => rw [Definitions.nameAt, hs]; rfl
    | some symbol' =>
      obtain ⟨l', hl', a', ha', hkey⟩ := h.owners id (by rw [Definitions.hasSymbol, QHash.contains, hs]; rfl)
      rw [hle.locations.get? hl'] at hl
      cases hl
      exact absurd (decide_eq_true hkey) (List.find?_eq_none.1 hfind a' ha')

/-- **A lookup that misses the cache is told what it asks for.** -/
theorem Told.define (h : Told asked d) (hname : ∀ i, (symbol i).name = i) :
    Told (asked ++ [a]) (d.define a.function a.address a.name symbol).2 := by
  have hle := d.define_le a.function a.address a.name symbol
  obtain ⟨lf, hlf, hkeyf⟩ := d.get?_define_function a.function a.address a.name symbol
  refine ⟨?_, fun id hid => ?_, fun id l hl => ?_⟩
  · have hnone : ParentOf d.locations a.function none := (congrArg Location.parentLocationId a.function_key).symm
    have hfunction := h.placed.resolve hnone
    have hparent : ParentOf (d.locations.resolve a.function).2
        { a.address with parentLocationId := d.parentId a.function } (some a.function) := by
      obtain ⟨l, hl, hkey⟩ := Interner.get?_resolve d.locations a.function
      exact ⟨l, hl, hkey.trans a.function_key⟩
    have haddress := hfunction.resolve hparent
    rw [a.function_key, show ({ a.address with parentLocationId := d.parentId a.function } : Location).key = a.address
      from a.address_key, List.append_assoc] at haddress
    rw [List.flatMap_append, List.flatMap_singleton]
    unfold Definitions.define
    rw [show ∀ d' : Definitions, ∀ l, (d'.resolveLocation l).2.locations = (d'.locations.resolve l).2 from
      fun _ _ => rfl, Definitions.attach_locations]
    exact haddress
  · obtain ⟨symbol', hs⟩ := Option.isSome_iff_exists.1 hid
    rcases Definitions.find_define hs with hs | rfl
    · obtain ⟨l, hl, a', ha', hkey⟩ := h.owners id (by rw [Definitions.hasSymbol, QHash.contains, hs]; rfl)
      exact ⟨l, hle.locations.get? hl, a', List.mem_append_left _ ha', hkey⟩
    · exact ⟨lf, hlf, a, List.mem_append_right _ (List.mem_singleton_self a), (hkeyf.trans a.function_key).symm⟩
  · by_cases hid : id = d.parentId a.function
    · subst hid
      rw [hlf] at hl
      cases hl
      rw [h.nameAt_function hname, hkeyf, a.function_key]
    · have hne : a.function ≠ l.key := fun hkey =>
        hid (Interner.get?_inj hl hlf ((hkey.symm.trans a.function_key.symm).trans hkeyf.symm))
      rw [h.nameAt_other hid hl, Asked.nameOf?, Asked.nameOf?, List.find?_append, List.find?_singleton,
        if_neg (by simpa using hne), Option.or_none]

end Define

/-! ## What stays -/

namespace Asked

theorem nameOf?_append {asked : List Asked} {a : Asked} (ha : a ∈ asked) (more : List Asked) :
    nameOf? (asked ++ more) a.function = nameOf? asked a.function := by
  obtain ⟨n, hn⟩ := nameOf?_of_mem ha
  obtain ⟨a', hfind, -⟩ := Option.map_eq_some_iff.1 hn
  rw [nameOf?, nameOf?, List.find?_append, hfind, Option.some_or]

theorem mem_of_parent? {asked : List Asked} {location f : Location} (h : parent? asked location = some f) :
    ∃ a ∈ asked, a.function = f := by
  obtain ⟨p, hfind, hp⟩ := Option.bind_eq_some_iff.1 h
  obtain ⟨a, ha, hmem⟩ := List.mem_flatMap.1 (List.mem_of_find?_eq_some hfind)
  refine ⟨a, ha, ?_⟩
  simp only [places, List.mem_cons, List.not_mem_nil, or_false] at hmem
  rcases hmem with rfl | rfl
  · cases hp
  · exact Option.some.inj hp

theorem reported_append {asked : List Asked} {a : Asked} (ha : a ∈ asked) (more : List Asked) :
    reported (asked ++ more) a.address = reported asked a.address := by
  obtain ⟨p, hfind⟩ := Option.isSome_iff_exists.1
    (List.find?_isSome (p := fun p : Place => decide (p.1 = a.address)) |>.2
      ⟨(a.address, some a.function),
        (List.mem_flatMap (f := places)).2 ⟨a, ha, List.mem_cons_of_mem _ List.mem_cons_self⟩, decide_eq_true rfl⟩)
  have hparent : parent? (asked ++ more) a.address = parent? asked a.address := by
    rw [parent?, parent?, List.flatMap_append, List.find?_append, hfind, Option.some_or]
  rw [reported, reported, hparent]
  cases hf : parent? asked a.address with
  | none => rfl
  | some f =>
    obtain ⟨a', ha', rfl⟩ := mem_of_parent? hf
    exact nameOf?_append ha' more

end Asked

end PerfParser
