import PerfParser.Records
import PerfParser.Lib.KeyedSearch
import Mathlib.Logic.Relation
/-!
# ExtraPath — the search for a file below a directory (`findInExtraPath`)

The search goes down the directories and remembers, against cycles of symbolic links, where it has been.  What it
remembers is the canonical path of the file it looks for in a directory, not that of the directory.  Where there is no
such file the path is empty, so of all directories without one only the first is looked into: the search ends, and looks
into no directory twice, but it may miss the file.
-/
namespace PerfParser

/-- The names on the way down from the root. -/
abbrev Path := List QByteArray

inductive FileKind
  | directory
  | file
  | other
deriving DecidableEq, Repr, Inhabited

/-- What there is at a path, after the symbolic links. -/
structure FileInfo where
  canonicalFilePath : Path
  kind : FileKind
deriving DecidableEq, Repr, Inhabited

/-- A finite tree of directories with symbolic links, by their canonical paths.  The links are followed when a name is
looked up, so one that leads nowhere is not there; `.` and `..` are not names.  `entryList` is what `QDir` lists for
`QDir::Dirs`, which may leave out directories, as it does with hidden ones. -/
structure FileSystem where
  directories : List Path
  lookup : Path → QByteArray → Option FileInfo
  entryList : Path → List QByteArray
  root_mem : [] ∈ directories
  lookup_mem : ∀ dir ∈ directories, ∀ name info, lookup dir name = some info → info.kind = .directory →
    info.canonicalFilePath ∈ directories
  entryList_nodup : ∀ dir, (entryList dir).Nodup
  entryList_directory : ∀ dir, ∀ name ∈ entryList dir, ∃ info, lookup dir name = some info ∧ info.kind = .directory

namespace FileSystem

variable (fs : FileSystem)

/-- What a name in a directory stands for. -/
def enter (info : FileInfo) (name : QByteArray) : Option FileInfo :=
  if info.kind = .directory then fs.lookup info.canonicalFilePath name else none

def stat (path : Path) : Option FileInfo :=
  path.foldlM fs.enter { canonicalFilePath := [], kind := .directory }

/-- `QFileInfo::isFile`. -/
def isFile (path : Path) : Bool := (fs.stat path).any (fun info => info.kind = .file)

/-- The canonical path of a directory. -/
def directoryAt (path : Path) : Option Path :=
  (fs.stat path).bind (fun info => if info.kind = .directory then some info.canonicalFilePath else none)

/-- `QFileInfo::canonicalFilePath`, which is empty for a path that does not exist. -/
def canonicalFilePath (path : Path) : Option Path := (fs.stat path).map FileInfo.canonicalFilePath

/-- `QDir::entryList` of a path. -/
def entries (path : Path) : List QByteArray := ((fs.directoryAt path).map fs.entryList).getD []

/-- A directory in a directory, listed or not. -/
def Subdirectory (path sub : Path) : Prop := ∃ name, sub = path ++ [name] ∧ (fs.directoryAt sub).isSome

end FileSystem

/-- The arguments of `findInExtraPath` that are read and written, and the directories that it has looked into. -/
structure ExtraPathSearch where
  path : Path
  checkedCanonicalPaths : List (Option Path) := []
  visited : List Path := []
deriving DecidableEq, Repr, Inhabited

/-- The loop over the entries of a directory. -/
def findInEntries (find : ExtraPathSearch → Option (Bool × ExtraPathSearch)) (absDir : Path) :
    List QByteArray → ExtraPathSearch → Option (Bool × ExtraPathSearch)
  | [], s => some (false, s)
  | entry :: entries, s =>
    match find { s with path := absDir ++ [entry] } with
    | none => none
    | some (true, s) => some (true, s)
    | some (false, s) => findInEntries find absDir entries s

/-- `findInExtraPath`, with calls to a depth: there is no result if it is not enough. -/
def findInExtraPath (fs : FileSystem) (fileName : QByteArray) :
    Nat → ExtraPathSearch → Option (Bool × ExtraPathSearch)
  | 0, _ => none
  | depth + 1, s =>
    let path := s.path ++ [fileName]
    if fs.isFile path then some (true, { s with path := path })
    else
      let canonicalPath := fs.canonicalFilePath path
      if canonicalPath ∈ s.checkedCanonicalPaths then some (false, { s with path := path })
      else
        let absDir := path.dropLast
        findInEntries (findInExtraPath fs fileName depth) absDir (fs.entries absDir)
          { path := path
            checkedCanonicalPaths := s.checkedCanonicalPaths ++ [canonicalPath]
            visited := s.visited ++ [absDir] }

/-! ## It is a search by keys -/

section

variable (fs : FileSystem) (fileName : QByteArray)

/-- The directory has the file. -/
def hasFile (dir : Path) : Bool := fs.isFile (dir ++ [fileName])

/-- What `findInExtraPath` remembers a directory by. -/
def checkedPath (dir : Path) : Option Path := fs.canonicalFilePath (dir ++ [fileName])

/-- The call and the search have the same result. -/
def SameResult (call : Bool × ExtraPathSearch) (found : Bool × List Path) : Prop :=
  call.1 = found.1 ∧ call.2.visited = found.2 ∧ call.2.checkedCanonicalPaths = found.2.map (checkedPath fs fileName)

variable {fs fileName}

theorem findInEntries_searchIn {find : ExtraPathSearch → Option (Bool × ExtraPathSearch)}
    {rec : Path → List Path → Option (Bool × List Path)}
    (hfind : ∀ s, s.checkedCanonicalPaths = s.visited.map (checkedPath fs fileName) →
      Option.Rel (SameResult fs fileName) (find s) (rec s.path s.visited)) (absDir : Path) :
    ∀ (entries : List QByteArray) (s : ExtraPathSearch),
      s.checkedCanonicalPaths = s.visited.map (checkedPath fs fileName) →
      Option.Rel (SameResult fs fileName) (findInEntries find absDir entries s)
        (KeyedSearch.searchIn rec absDir entries s.visited)
  | [], s, hs => .some ⟨rfl, rfl, hs⟩
  | entry :: entries, s, hs => by
    have hentry := hfind { s with path := absDir ++ [entry] } hs
    unfold findInEntries KeyedSearch.searchIn
    generalize find { s with path := absDir ++ [entry] } = call at hentry ⊢
    generalize rec (absDir ++ [entry]) s.visited = found at hentry ⊢
    cases hentry with
    | none => exact .none
    | @some call found h =>
      obtain ⟨b, s'⟩ := call
      obtain ⟨b', visited⟩ := found
      obtain ⟨rfl, rfl, hchecked⟩ := h
      cases b with
      | true => exact .some ⟨rfl, rfl, hchecked⟩
      | false => exact findInEntries_searchIn hfind absDir entries s' hchecked

/-- **`findInExtraPath` is the search by these keys.** -/
theorem findInExtraPath_search : ∀ (depth : Nat) (s : ExtraPathSearch),
    s.checkedCanonicalPaths = s.visited.map (checkedPath fs fileName) →
    Option.Rel (SameResult fs fileName) (findInExtraPath fs fileName depth s)
      (KeyedSearch.search fs.entries (checkedPath fs fileName) (hasFile fs fileName) depth s.path s.visited)
  | 0, _, _ => .none
  | depth + 1, s, hs => by
    unfold findInExtraPath KeyedSearch.search
    simp only [List.dropLast_concat]
    split
    next hfile =>
      rw [if_pos (show hasFile fs fileName s.path = true from hfile)]
      exact .some ⟨rfl, rfl, hs⟩
    next hfile =>
      rw [if_neg (show ¬ hasFile fs fileName s.path = true from hfile), hs]
      split
      next hmem =>
        rw [if_pos (show checkedPath fs fileName s.path ∈ _ from hmem)]
        exact .some ⟨rfl, rfl, rfl⟩
      next hmem =>
        rw [if_neg (show checkedPath fs fileName s.path ∉ _ from hmem)]
        exact findInEntries_searchIn (findInExtraPath_search depth) s.path (fs.entries s.path) _ (by
          rw [List.map_append]
          rfl)

end

/-! ## The depth -/

theorem findInEntries_mono {find find' : ExtraPathSearch → Option (Bool × ExtraPathSearch)}
    (hfind : ∀ s r, find s = some r → find' s = some r) (absDir : Path) :
    ∀ {entries : List QByteArray} {s : ExtraPathSearch} {r : Bool × ExtraPathSearch},
      findInEntries find absDir entries s = some r → findInEntries find' absDir entries s = some r
  | [], _, _, h => h
  | entry :: entries, s, r, h => by
    unfold findInEntries at h ⊢
    cases hentry : find { s with path := absDir ++ [entry] } with
    | none =>
      rw [hentry] at h
      cases h
    | some found =>
      rw [hentry] at h
      rw [hfind _ _ hentry]
      match found with
      | (true, s') => exact h
      | (false, s') => exact findInEntries_mono hfind absDir h

theorem findInExtraPath_succ {fs : FileSystem} {fileName : QByteArray} :
    ∀ {depth : Nat} {s : ExtraPathSearch} {r : Bool × ExtraPathSearch},
      findInExtraPath fs fileName depth s = some r → findInExtraPath fs fileName (depth + 1) s = some r
  | 0, _, _, h => by cases h
  | depth + 1, s, r, h => by
    unfold findInExtraPath at h ⊢
    simp only at h ⊢
    split at h
    next hfile => rwa [if_pos hfile]
    next hfile =>
      rw [if_neg hfile]
      split at h
      next hmem => rwa [if_pos hmem]
      next hmem =>
        rw [if_neg hmem]
        exact findInEntries_mono (fun _ _ => findInExtraPath_succ) _ h

theorem findInExtraPath_mono {fs : FileSystem} {fileName : QByteArray} {least depth : Nat} {s : ExtraPathSearch}
    {r : Bool × ExtraPathSearch} (h : findInExtraPath fs fileName least s = some r) (hle : least ≤ depth) :
    findInExtraPath fs fileName depth s = some r := by
  induction depth, hle using Nat.le_induction with
  | base => exact h
  | succ depth _ ih => exact findInExtraPath_succ ih

/-! ## What is known of the directories -/

namespace FileSystem

variable {fs : FileSystem} {path dir : Path} {name : QByteArray}

theorem stat_append : fs.stat (path ++ [name]) = (fs.stat path).bind (fun info => fs.enter info name) := by
  unfold stat
  simp only [List.foldlM_append, List.foldlM_cons, List.foldlM_nil, bind_pure]
  rfl

theorem stat_mem : ∀ {path : Path} {info : FileInfo}, fs.stat path = some info → info.kind = .directory →
    info.canonicalFilePath ∈ fs.directories := by
  intro path
  induction path using List.reverseRecOn with
  | nil =>
    intro info hinfo _
    obtain rfl := Option.some.inj hinfo
    exact fs.root_mem
  | append_singleton path name ih =>
    intro info hinfo hkind
    rw [stat_append] at hinfo
    obtain ⟨dir, hdir, hname⟩ := Option.bind_eq_some_iff.1 hinfo
    unfold enter at hname
    split at hname
    next hdirectory => exact fs.lookup_mem _ (ih hdir hdirectory) name info hname hkind
    next => cases hname

theorem directoryAt_eq_some : fs.directoryAt path = some dir ↔ fs.stat path = some ⟨dir, .directory⟩ := by
  unfold directoryAt
  constructor
  · intro h
    obtain ⟨info, hinfo, hdir⟩ := Option.bind_eq_some_iff.1 h
    split at hdir
    next hkind =>
      obtain rfl := Option.some.inj hdir
      rw [hinfo, ← hkind]
    next => cases hdir
  · intro h
    rw [h]
    rfl

theorem directoryAt_mem (h : fs.directoryAt path = some dir) : dir ∈ fs.directories :=
  stat_mem (directoryAt_eq_some.1 h) rfl

/-- What is in a directory is known from its canonical path. -/
theorem stat_in_directory : fs.stat (path ++ [name]) = (fs.directoryAt path).bind (fun dir => fs.lookup dir name) := by
  rw [stat_append]
  unfold directoryAt enter
  cases fs.stat path with
  | none => rfl
  | some info =>
    simp only [Option.bind_some]
    split
    · rfl
    · rfl

theorem entries_nodup (path : Path) : (fs.entries path).Nodup := by
  unfold entries
  cases fs.directoryAt path with
  | none => exact List.nodup_nil
  | some dir => exact fs.entryList_nodup dir

theorem subdirectory_of_mem_entries (h : name ∈ fs.entries path) : fs.Subdirectory path (path ++ [name]) := by
  refine ⟨name, rfl, ?_⟩
  unfold entries at h
  cases hdir : fs.directoryAt path with
  | none =>
    rw [hdir] at h
    cases h
  | some dir =>
    rw [hdir] at h
    obtain ⟨info, hinfo, hkind⟩ := fs.entryList_directory dir name h
    unfold directoryAt
    rw [stat_in_directory, hdir, Option.bind_some, hinfo, Option.bind_some, if_pos hkind]
    rfl

theorem reachable_of_listed : ∀ {s root : Path}, KeyedSearch.Listed fs.entries root s →
    Relation.ReflTransGen fs.Subdirectory root (root ++ s)
  | [], root, _ => by
    rw [List.append_nil]
  | name :: s, root, h => by
    rw [List.append_cons]
    exact .head (subdirectory_of_mem_entries h.1) (reachable_of_listed h.2)

end FileSystem

/-! ## What it finds -/

section

variable (fs : FileSystem) (root : Path) (fileName : QByteArray)

/-- The directories below the root, by their paths from it, that come first with what is remembered of them: the root,
and each that is listed in one of them unless another of them is met before it for which the file has the same canonical
path, or has none either. -/
def FirstChecked (dirs : Set Path) : Prop := KeyedSearch.FirstCome fs.entries (checkedPath fs fileName) root [] dirs

/-- The file is in the root, or in a directory that is listed in one of some directories. -/
def HasFileBelow (dirs : Set Path) : Prop :=
  hasFile fs fileName root = true ∨
    ∃ dir ∈ dirs, ∃ entry ∈ fs.entries (root ++ dir), hasFile fs fileName (root ++ dir ++ [entry]) = true

/-- Some directory that can be reached has the file. -/
def Reaches : Prop := ∃ dir, Relation.ReflTransGen fs.Subdirectory root dir ∧ hasFile fs fileName dir = true

/-- With enough calls `findInExtraPath` returns, looks into no canonical directory twice, and returns true exactly if
some directory that can be reached has the file. -/
def FindsFile : Prop :=
  ∃ r : Bool × ExtraPathSearch,
    (∃ least, ∀ depth, least ≤ depth → findInExtraPath fs fileName depth { path := root } = some r) ∧
    (r.2.visited.filterMap fs.directoryAt).Nodup ∧ (r.1 = true ↔ Reaches fs root fileName)

variable {fs root fileName}

theorem checkedPath_eq (dir : Path) : checkedPath fs fileName dir =
    ((fs.directoryAt dir).bind (fun dir => fs.lookup dir fileName)).map FileInfo.canonicalFilePath := by
  unfold checkedPath FileSystem.canonicalFilePath
  rw [FileSystem.stat_in_directory]

/-- There are no more keys than directories, and the empty one. -/
theorem checkedPath_mem (dir : Path) : checkedPath fs fileName dir ∈
    none :: fs.directories.map (fun dir => (fs.lookup dir fileName).map FileInfo.canonicalFilePath) := by
  rw [checkedPath_eq]
  cases hdir : fs.directoryAt dir with
  | none => exact List.mem_cons_self
  | some d => exact List.mem_cons_of_mem _ (List.mem_map.2 ⟨d, FileSystem.directoryAt_mem hdir, rfl⟩)

/-- Directories with different keys are different. -/
theorem nodup_directories {visited : List Path} (h : (visited.map (checkedPath fs fileName)).Nodup) :
    (visited.filterMap fs.directoryAt).Nodup := by
  rw [List.Nodup, List.pairwise_map] at h
  refine List.pairwise_filterMap.2 (h.imp (fun {dir dir'} hne => ?_))
  rintro d hd _ hd' rfl
  refine hne ?_
  rw [checkedPath_eq, checkedPath_eq, hd, hd']

/-- There is one such set of directories. -/
theorem existsUnique_firstChecked (fs : FileSystem) (root : Path) (fileName : QByteArray) :
    ∃! dirs, FirstChecked fs root fileName dirs := by
  obtain ⟨dirs, hfinite, hfirst⟩ : ∃ dirs : Set Path, dirs.Finite ∧ FirstChecked fs root fileName dirs :=
    KeyedSearch.exists_firstCome FileSystem.entries_nodup checkedPath_mem root
  exact ⟨dirs, hfirst, fun _ h => KeyedSearch.FirstCome.unique FileSystem.entries_nodup h hfirst hfinite⟩

/-- **`findInExtraPath` returns, looks into no directory twice**, and returns true exactly if the file is in the root or
in a directory that is listed in one of those that come first. -/
theorem findInExtraPath_spec (fs : FileSystem) (root : Path) (fileName : QByteArray) :
    ∃ r : Bool × ExtraPathSearch,
      (∀ depth, fs.directories.length + 1 < depth → findInExtraPath fs fileName depth { path := root } = some r) ∧
      (r.2.visited.filterMap fs.directoryAt).Nodup ∧
      (r.1 = true ↔ ∃ dirs, FirstChecked fs root fileName dirs ∧ HasFileBelow fs root fileName dirs) := by
  have hlength : (none :: fs.directories.map (fun dir =>
      (fs.lookup dir fileName).map FileInfo.canonicalFilePath)).length < fs.directories.length + 2 := by
    rw [List.length_cons, List.length_map]
    exact Nat.lt_succ_self _
  obtain ⟨⟨b, visited⟩, hfound, hkeys, hspec⟩ := KeyedSearch.search_spec fs.entries (checkedPath fs fileName)
    (hasFile fs fileName) FileSystem.entries_nodup _ checkedPath_mem root hlength
  have hcall : Option.Rel (SameResult fs fileName) _ _ :=
    findInExtraPath_search (fs.directories.length + 2) { path := root } rfl
  rw [hfound] at hcall
  match hr : findInExtraPath fs fileName (fs.directories.length + 2) { path := root }, hcall with
  | some r, .some ⟨hb, hvisited, _⟩ =>
    refine ⟨r, fun depth hdepth => findInExtraPath_mono hr hdepth, ?_, ?_⟩
    · rw [hvisited]
      exact nodup_directories hkeys
    · rw [hb]
      exact hspec

/-- What the search can get to can be reached. -/
theorem reaches_of_hasFileBelow {dirs : Set Path} (hfirst : FirstChecked fs root fileName dirs)
    (h : HasFileBelow fs root fileName dirs) : Reaches fs root fileName := by
  rcases h with h | ⟨dir, hdir, entry, hentry, h⟩
  · exact ⟨root, .refl, h⟩
  · exact ⟨_, (FileSystem.reachable_of_listed (hfirst.listed dir hdir)).tail
      (FileSystem.subdirectory_of_mem_entries hentry), h⟩

/-- **The search is right exactly if the file is where the directories come first**, or is nowhere. -/
theorem findsFile_iff (fs : FileSystem) (root : Path) (fileName : QByteArray) :
    FindsFile fs root fileName ↔ (Reaches fs root fileName →
      ∃ dirs, FirstChecked fs root fileName dirs ∧ HasFileBelow fs root fileName dirs) := by
  obtain ⟨r, hr, hvisited, hspec⟩ := findInExtraPath_spec fs root fileName
  constructor
  · rintro ⟨r', ⟨least, hr'⟩, -, hreaches⟩ h
    have heq := (hr (fs.directories.length + 2 + least) (by omega)).symm.trans
      (hr' (fs.directories.length + 2 + least) (Nat.le_add_left _ _))
    obtain rfl := Option.some.inj heq
    exact hspec.1 (hreaches.2 h)
  · intro h
    refine ⟨r, ⟨fs.directories.length + 2, fun depth hdepth => hr depth hdepth⟩, hvisited, hspec.trans ⟨?_, h⟩⟩
    rintro ⟨dirs, hfirst, hbelow⟩
    exact reaches_of_hasFileBelow hfirst hbelow

/-- **Where nothing but the file has its name, the search does not go below the directories in the root.** -/
theorem findInExtraPath_shallow
    (honly : ∀ dir, Relation.ReflTransGen fs.Subdirectory root dir →
      hasFile fs fileName dir = true ∨ checkedPath fs fileName dir = none) :
    ∃ r : Bool × ExtraPathSearch,
      (∀ depth, fs.directories.length + 1 < depth → findInExtraPath fs fileName depth { path := root } = some r) ∧
      (r.1 = true ↔ hasFile fs fileName root = true ∨
        ∃ entry ∈ fs.entries root, hasFile fs fileName (root ++ [entry]) = true) := by
  obtain ⟨r, hr, -, hspec⟩ := findInExtraPath_spec fs root fileName
  refine ⟨r, hr, hspec.trans ⟨?_, ?_⟩⟩
  · rintro ⟨dirs, hfirst, hroot | ⟨dir, hdir, entry, hentry, hfile⟩⟩
    · exact .inl hroot
    · cases dir with
      | nil =>
        rw [List.append_nil] at hentry hfile
        exact .inr ⟨entry, hentry, hfile⟩
      | cons name dir =>
        have hname : [name] ∈ dirs := hfirst.append_mem (s := [name]) hdir
        have hlisted := hfirst.listed _ hname
        have hkey := hfirst.key_ne hname (hfirst.nil_mem List.not_mem_nil) (List.cons_ne_nil name [])
        rw [List.append_nil] at hkey
        refine (honly root .refl).imp_right (fun hroot => ⟨name, hlisted.1, ?_⟩)
        refine (honly _ (FileSystem.reachable_of_listed hlisted)).resolve_right (fun hnone => ?_)
        exact hkey (hroot.trans hnone.symm)
  · intro h
    obtain ⟨dirs, hfirst⟩ := (existsUnique_firstChecked fs root fileName).exists
    refine ⟨dirs, hfirst, h.imp_right ?_⟩
    rintro ⟨entry, hentry, hfile⟩
    refine ⟨[], hfirst.nil_mem List.not_mem_nil, entry, ?_, ?_⟩
    · rwa [List.append_nil]
    · rwa [List.append_nil]

end

/-- `/a/b/f`, where `f` is a file. -/
def deepFile : FileSystem where
  directories := [[], [[97]], [[97], [98]]]
  lookup dir name :=
    if dir = [] ∧ name = [97] then some ⟨[[97]], .directory⟩
    else if dir = [[97]] ∧ name = [98] then some ⟨[[97], [98]], .directory⟩
    else if dir = [[97], [98]] ∧ name = [102] then some ⟨[[97], [98], [102]], .file⟩
    else none
  entryList dir := if dir = [] then [[97]] else if dir = [[97]] then [[98]] else []
  root_mem := List.mem_cons_self
  lookup_mem := by
    intro dir _ name info hinfo hkind
    split at hinfo
    · obtain rfl := Option.some.inj hinfo
      decide
    split at hinfo
    · obtain rfl := Option.some.inj hinfo
      decide
    split at hinfo
    · obtain rfl := Option.some.inj hinfo
      cases hkind
    · cases hinfo
  entryList_nodup := by
    intro dir
    split
    · decide
    split <;> decide
  entryList_directory := by
    intro dir name hname
    split at hname
    next hdir =>
      obtain rfl := List.mem_singleton.1 hname
      exact ⟨_, if_pos ⟨hdir, rfl⟩, rfl⟩
    split at hname
    next hroot hdir =>
      obtain rfl := List.mem_singleton.1 hname
      subst hdir
      exact ⟨_, rfl, rfl⟩
    · cases hname

/-- **A file two directories below the root is not found.** -/
theorem not_findsFile : ¬∀ (fs : FileSystem) (root : Path) (fileName : QByteArray), FindsFile fs root fileName := by
  intro h
  obtain ⟨r, ⟨least, hr⟩, -, hreaches⟩ := h deepFile [] [102]
  have hmissed : findInExtraPath deepFile [102] 2 { path := [] } =
      some (false, { path := [[97], [102]], checkedCanonicalPaths := [none], visited := [[]] }) := by decide
  have heq := (hr (2 + least) (Nat.le_add_left _ _)).symm.trans (findInExtraPath_mono hmissed (Nat.le_add_right _ _))
  obtain rfl := Option.some.inj heq
  have hfile : Reaches deepFile [] [102] := by
    refine ⟨[[97], [98]], ?_, by decide⟩
    exact (Relation.ReflTransGen.single ⟨[97], rfl, by decide⟩).tail ⟨[98], rfl, by decide⟩
  exact Bool.false_ne_true (hreaches.2 hfile)

end PerfParser
