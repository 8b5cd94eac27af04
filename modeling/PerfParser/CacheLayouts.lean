import PerfParser.AddressCache
import PerfParser.ElfMapRefine
/-!
# CacheLayouts — mappings that are cached at the places of their files

A file has its bytes at some place relative to its base, its layout.  The cache is sound for mappings that are
registered where the layouts of their files have them, relative to the address that the cache takes for the base: that
of `m_lastBase`, or their own start where `registerElf` knows of no base, as for what an overlapping mapping leaves
over (`answered_of_layout`).
-/
namespace PerfParser

open History (Always)
open Spans

/-- Which offset of a file is at an address relative to its base, for every path. -/
abbrev FileLayout := QByteArray → UInt64 → UInt64

/-- The file is in the `length` bytes from `addr` on, starting at offset `pgoff`, as its layout has it. -/
def FileLayout.Places (layout : FileLayout) (path : QByteArray) (base addr length pgoff : UInt64) : Prop :=
  ∀ ip, addr ≤ ip → ip < addr + length → layout path (ip - base) = ip - addr + pgoff

namespace PerfElfMap

/-- The mappings that the loop of `registerElf` overwrites, each with the state there. -/
def overwritten (originalPath : QByteArray) : Scan → Nat → List ElfInfo → List (Scan × ElfInfo)
  | _, _, [] => []
  | s, index, i :: rest =>
    if i.addr < s.addrEnd then
      if i.addr + i.length < s.addr then overwritten originalPath s (index + 1) rest
      else if s.addr - s.pgoff = i.addr - i.pgoff ∧ originalPath = i.originalPath then
        let s' := s.extend i
        if s'.addr = i.addr ∧ s'.len = i.length then []
        else (s', i) :: overwritten originalPath (s'.overwrite index i) (index + 1) rest
      else if i.addr + i.length = s.addr then overwritten originalPath s (index + 1) rest
      else (s, i) :: overwritten originalPath (s.overwrite index i) (index + 1) rest
    else []

/-- The address that the new mapping is cached relative to: the last base of its file, or its own. -/
def newBase (lastBase : ElfInfo) (m : Mapping) (addr : UInt64) : UInt64 :=
  if lastBase.originalPath = m.originalPath ∧ addr > lastBase.addr then lastBase.addr else addr

/-- A registration places the files as their layouts have them: the new mapping, with those of the same file in the same
place that it is merged with, relative to the last base of its file or to its own start; and what it leaves over of
mappings that it overwrites relative to where this starts. -/
structure Follows (layout : FileLayout) (map : PerfElfMap) (m : Mapping) : Prop where
  new : ∀ s, scan m.originalPath (startScan m) 0 map.elfs = (s, false) → m.fullPath.isFile = true →
    layout.Places (elfOf m s).originalPath (newBase map.lastBase m s.addr) s.addr s.len s.pgoff
  front : ∀ p ∈ overwritten m.originalPath (startScan m) 0 map.elfs, p.2.isFile = true → p.2.hasBaseAddr = true →
    p.2.addr < p.1.addr →
    layout.Places p.2.originalPath p.2.addr p.2.addr (p.1.addr - p.2.addr) p.2.pgoff
  behind : ∀ p ∈ overwritten m.originalPath (startScan m) 0 map.elfs, p.2.isFile = true →
    p.2.addr + p.2.length > p.1.addrEnd →
    layout.Places p.2.originalPath p.1.addrEnd p.1.addrEnd (p.2.addr + p.2.length - p.1.addrEnd)
      (p.2.pgoff + p.1.addrEnd - p.2.addr)

/-! ## One registration -/

/-- A mapping of a file is placed as the layout has it, relative to what the cache takes for its base. -/
structure Placed (layout : FileLayout) (e : ElfInfo) : Prop where
  places : e.isFile = true →
    layout.Places e.originalPath (if e.hasBaseAddr then e.baseAddr else e.addr) e.addr e.length e.pgoff
  named : e.originalPath.isEmpty = true → e.localFile.absoluteFilePath = e.originalPath
  noDwfl : ¬e.dwflStart < e.dwflEnd

variable {layout : FileLayout} {e : ElfInfo} {map : PerfElfMap}

/-- The address relative to the base stands for the offset. -/
theorem Placed.fileOffset (h : Placed layout e) (hfile : e.isFile = true) {ip : UInt64} (hlo : e.addr ≤ ip)
    (hhi : ip < e.addr + e.length) : layout e.originalPath (e.relativeAddress ip) = e.fileOffset ip :=
  h.places hfile ip hlo hhi

/-- The paths of a fragment are those of its mapping. -/
theorem make_named {f : QFileInfo} {addr length pgoff : UInt64} {name path : QByteArray}
    (h : path.isEmpty = true → f.absoluteFilePath = path) :
    (ElfInfo.make f addr length pgoff name path).originalPath = path := by
  show (if path.isEmpty then f.absoluteFilePath else path) = path
  split
  · rename_i hempty
    exact h hempty
  · rfl

theorem elfOf_named (m : Mapping) (s : Scan) : (elfOf m s).originalPath.isEmpty = true →
    (elfOf m s).localFile.absoluteFilePath = (elfOf m s).originalPath := by
  intro hempty
  show m.fullPath.absoluteFilePath = if m.originalPath.isEmpty then m.fullPath.absoluteFilePath else m.originalPath
  split
  · rfl
  · rename_i hne
    rw [show (elfOf m s).originalPath = m.originalPath from if_neg hne] at hempty
    exact absurd hempty hne

theorem elfOf_noDwfl (m : Mapping) (s : Scan) : ¬(elfOf m s).dwflStart < (elfOf m s).dwflEnd := ElfInfo.make_noDwfl

/-- What is overwritten reaches up to the new range. -/
theorem overwritten_spec (originalPath : QByteArray) : ∀ (l : List ElfInfo) (s : Scan) (index : Nat),
    ∀ p ∈ overwritten originalPath s index l, p.2 ∈ l ∧ (p.2.addr < p.1.addr → p.1.addr ≤ p.2.addr + p.2.length)
  | [], _, _, _, hp => by cases hp
  | i :: rest, s, index, p, hp => by
    have hrest : ∀ s', p ∈ overwritten originalPath s' (index + 1) rest →
        p.2 ∈ i :: rest ∧ (p.2.addr < p.1.addr → p.1.addr ≤ p.2.addr + p.2.length) := by
      intro s' hp
      obtain ⟨hmem, hreach⟩ := overwritten_spec originalPath rest s' (index + 1) p hp
      exact ⟨List.mem_cons_of_mem _ hmem, hreach⟩
    unfold overwritten at hp
    split at hp
    · split at hp
      · exact hrest _ hp
      · rename_i hge
        split at hp
        · dsimp only at hp
          split at hp
          · cases hp
          · rcases List.mem_cons.1 hp with rfl | hp
            · refine ⟨List.mem_cons_self, fun hlt => ?_⟩
              -- an extended range has no front
              have hmin : (s.extend i).addr ≤ i.addr := UInt64.le_iff_toNat_le.2 (by
                rw [show (s.extend i).addr = min s.addr i.addr from rfl, UInt64.toNat_min]
                exact Nat.min_le_right _ _)
              exact absurd (UInt64.lt_iff_toNat_lt.1 hlt) (Nat.not_lt.2 (UInt64.le_iff_toNat_le.1 hmin))
            · exact hrest _ hp
        · split at hp
          · exact hrest _ hp
          · rcases List.mem_cons.1 hp with rfl | hp
            · exact ⟨List.mem_cons_self, fun _ => UInt64.not_lt.1 hge⟩
            · exact hrest _ hp
    · cases hp

/-- The fragments are those of what is overwritten. -/
theorem mem_scan_newElfs (originalPath : QByteArray) : ∀ (l : List ElfInfo) (s : Scan) (index : Nat) {f : ElfInfo},
    f ∈ (scan originalPath s index l).1.newElfs →
      f ∈ s.newElfs ∨ ∃ p ∈ overwritten originalPath s index l, f ∈ fragments p.1 p.2
  | [], _, _, _, hf => .inl hf
  | i :: rest, s, index, f, hf => by
    have hoverwrite : ∀ s' : Scan, s'.newElfs = s.newElfs →
        f ∈ (scan originalPath (s'.overwrite index i) (index + 1) rest).1.newElfs →
        f ∈ s.newElfs ∨
          ∃ p ∈ (s', i) :: overwritten originalPath (s'.overwrite index i) (index + 1) rest, f ∈ fragments p.1 p.2 := by
      intro s' hs' hf
      rcases mem_scan_newElfs originalPath rest _ (index + 1) hf with hf | ⟨p, hp, hf⟩
      · rw [overwrite_newElfs, hs'] at hf
        exact (List.mem_append.1 hf).imp_right (fun hf => ⟨_, List.mem_cons_self, hf⟩)
      · exact .inr ⟨p, List.mem_cons_of_mem _ hp, hf⟩
    unfold scan at hf
    unfold overwritten
    split at hf
    · rename_i hlt
      rw [if_pos hlt]
      split at hf
      · rename_i hbefore
        rw [if_pos hbefore]
        exact mem_scan_newElfs originalPath rest s (index + 1) hf
      · rename_i hbefore
        rw [if_neg hbefore]
        split at hf
        · rename_i hsame
          rw [if_pos hsame]
          dsimp only at hf ⊢
          split at hf
          · exact .inl hf
          · rename_i hcontained
            rw [if_neg hcontained]
            exact hoverwrite (s.extend i) rfl hf
        · rename_i hsame
          rw [if_neg hsame]
          split at hf
          · rename_i hadjacent
            rw [if_pos hadjacent]
            exact mem_scan_newElfs originalPath rest s (index + 1) hf
          · rename_i hadjacent
            rw [if_neg hadjacent]
            exact hoverwrite s rfl hf
    · exact .inl hf

/-- **What is left over of a placed mapping is placed.** -/
theorem Follows.fragment {m : Mapping} (hm : Follows layout map m) (h : ∀ e ∈ map.elfs, Placed layout e)
    {p : Scan × ElfInfo} (hp : p ∈ overwritten m.originalPath (startScan m) 0 map.elfs) {f : ElfInfo}
    (hf : f ∈ fragments p.1 p.2) : Placed layout f := by
  obtain ⟨hmem, hreach⟩ := overwritten_spec _ _ _ _ p hp
  have hi := h p.2 hmem
  rcases mem_fragments.1 hf with ⟨hlt, rfl⟩ | ⟨hgt, rfl⟩
  · have hpath : (leftOf p.1 p.2).originalPath = p.2.originalPath := make_named hi.named
    refine ⟨fun hfile => ?_, fun hempty => ?_, ElfInfo.make_noDwfl⟩
    · show layout.Places (leftOf p.1 p.2).originalPath p.2.addr p.2.addr (p.1.addr - p.2.addr) p.2.pgoff
      rw [hpath]
      cases hbase : p.2.hasBaseAddr with
      | true => exact hm.front p hp hfile hbase hlt
      | false =>
        -- without a base, it starts where the mapping started
        have hplaces := hi.places hfile
        rw [hbase, if_neg Bool.false_ne_true] at hplaces
        refine fun ip hlo hhi => hplaces ip hlo (UInt64.lt_of_lt_of_le hhi ?_)
        rw [UInt64.add_comm, UInt64.sub_add_cancel]
        exact hreach hlt
    · rw [hpath] at hempty ⊢
      exact hi.named hempty
  · have hpath : (rightOf p.1 p.2).originalPath = p.2.originalPath := make_named hi.named
    refine ⟨fun hfile => ?_, fun hempty => ?_, ElfInfo.make_noDwfl⟩
    · show layout.Places (rightOf p.1 p.2).originalPath p.1.addrEnd p.1.addrEnd (p.2.addr + p.2.length - p.1.addrEnd)
        (p.2.pgoff + p.1.addrEnd - p.2.addr)
      rw [hpath]
      exact hm.behind p hp hfile hgt
    · rw [hpath] at hempty ⊢
      exact hi.named hempty

/-- The new mapping with its base is placed. -/
theorem Follows.rebased {m : Mapping} (hm : Follows layout map m) {s : Scan}
    (hscan : scan m.originalPath (startScan m) 0 map.elfs = (s, false)) :
    Placed layout (rebase map.lastBase (elfOf m s) m.originalPath).1 := by
  have hplaces := hm.new s hscan
  unfold newBase at hplaces
  unfold rebase
  split
  · rename_i hfile
    split
    · rename_i hbase
      refine ⟨fun hfile => ?_, elfOf_named m s, elfOf_noDwfl m s⟩
      have hhas : ({ elfOf m s with baseAddr := map.lastBase.addr } : ElfInfo).hasBaseAddr = true := by
        -- nothing is after the last address
        have hlt := UInt64.lt_iff_toNat_lt.1 (show map.lastBase.addr < s.addr from hbase.2)
        have hne : map.lastBase.addr ≠ INVALID_BASE_ADDR := by
          intro heq
          rw [heq] at hlt
          have := s.addr.toNat_lt
          have : INVALID_BASE_ADDR.toNat = 2 ^ 64 - 1 := rfl
          omega
        exact bne_iff_ne.2 hne
      have hplaces := hplaces hfile
      rw [if_pos (show map.lastBase.originalPath = m.originalPath ∧ s.addr > map.lastBase.addr from hbase)] at hplaces
      rw [if_pos hhas]
      exact hplaces
    · rename_i hbase
      have hplaced : Placed layout (elfOf m s) := by
        refine ⟨fun hfile => ?_, elfOf_named m s, elfOf_noDwfl m s⟩
        have hplaces := hplaces hfile
        rw [if_neg (show ¬(map.lastBase.originalPath = m.originalPath ∧ s.addr > map.lastBase.addr) from hbase)]
          at hplaces
        exact hplaces
      split <;> exact hplaced
  · rename_i hfile
    exact ⟨fun h => absurd h hfile, elfOf_named m s, elfOf_noDwfl m s⟩

/-- **A registration that follows the layouts keeps the mappings placed.** -/
theorem registerElf_placed {m : Mapping} (hm : Follows layout map m) (h : ∀ e ∈ map.elfs, Placed layout e) :
    ∀ e ∈ (map.registerElf m).1.elfs, Placed layout e := by
  rcases hscan : scan m.originalPath (startScan m) 0 map.elfs with ⟨s, _ | _⟩
  · have helfs : (map.registerElf m).1.elfs =
        (s.newElfs ++ [(rebase map.lastBase (elfOf m s) m.originalPath).1]).foldl insertElf
          (removeAll map.elfs s.removedElfs) := by
      unfold registerElf
      rw [hscan]
      rfl
    intro e he
    rw [helfs] at he
    rcases (mem_foldl_insertAt ElfInfo.lo).1 he with he | he
    · rcases List.mem_append.1 he with he | he
      · have hnew := mem_scan_newElfs m.originalPath map.elfs (startScan m) 0 (f := e) (by rw [hscan]; exact he)
        rcases hnew with hnew | ⟨p, hp, hf⟩
        · cases hnew
        · exact hm.fragment h hp hf
      · rw [List.mem_singleton.1 he]
        exact hm.rebased hscan
    · exact h e ((removeAll_sublist map.elfs s.removedElfs).subset he)
  · rw [registerElf_contained hscan]
    exact h

/-- What is found at an address covers it. -/
theorem findElf_spec (h : ∀ e ∈ map.elfs, Placed layout e) {ip : UInt64} (hvalid : (map.findElf ip).isValid = true) :
    Placed layout (map.findElf ip) ∧ (map.findElf ip).addr ≤ ip ∧
      ip < (map.findElf ip).addr + (map.findElf ip).length := by
  obtain ⟨hseek, hin⟩ := seek_of_valid hvalid
  obtain ⟨hmem, hlo⟩ := mem_of_seek ElfInfo.lo hseek
  have hplaced := h _ hmem
  rw [if_neg hplaced.noDwfl] at hin
  exact ⟨hplaced, UInt64.le_iff_toNat_le.2 hlo, hin⟩

end PerfElfMap

namespace Caches

/-! ## Runs -/

/-- Every registration places the files as their layouts have them, after the calls before it. -/
def Follows (layout : FileLayout) (pre : List MapOp) : MapOp → Prop
  | .registerElf map mapping => (ElfMaps.after pre map).Follows layout mapping
  | .copyDataFrom _ _ => True

variable {layout : FileLayout}

theorem after_placed (ops : List MapOp) : Always (Follows layout) ops →
    ∀ map, ∀ e ∈ (ElfMaps.after ops map).elfs, PerfElfMap.Placed layout e := by
  induction ops using List.reverseRecOn with
  | nil => exact fun _ _ e he => by cases he
  | append_singleton ops op ih =>
    intro h map
    obtain ⟨hops, hop⟩ := History.always_snoc.1 h
    rw [show ElfMaps.after (ops ++ [op]) = (ElfMaps.after ops).apply op from List.foldl_append ..]
    cases op with
    | registerElf target mapping =>
      unfold ElfMaps.apply
      dsimp only
      by_cases hmap : map = target
      · subst hmap
        rw [Function.update_self]
        exact PerfElfMap.registerElf_placed hop (ih hops map)
      · rw [Function.update_of_ne hmap]
        exact ih hops map
    | copyDataFrom target parent =>
      unfold ElfMaps.apply
      dsimp only
      by_cases hmap : map = target
      · subst hmap
        rw [Function.update_self]
        exact ih hops parent
      · rw [Function.update_of_ne hmap]
        exact ih hops map

/-- **Keys that layouts have places for distinguish offsets.** -/
theorem distinguishes_of_follows {ops : List MapOp} (h : Always (Follows layout) ops) : Distinguishes ops := by
  have hoffset : ∀ {elf : ElfInfo} {ip : UInt64}, FoundIn ops elf ip →
      layout elf.originalPath (elf.relativeAddress ip) = elf.fileOffset ip := by
    rintro elf ip ⟨pre, hpre, map, rfl, hvalid, hfile⟩
    obtain ⟨hplaced, hlo, hhi⟩ := PerfElfMap.findElf_spec (after_placed pre (h.of_prefix hpre) map) hvalid
    exact hplaced.fileOffset hfile hlo hhi
  intro elf ip elf' ip' hfound hfound' hpath hkey
  rw [← hoffset hfound, ← hoffset hfound', hpath, hkey]

/-- A library of two segments, the second one page further on in memory than in the file, and a file that is mapped over
the end of the first; the library again in another process, and that process forked. -/
def segmentedLibrary : List MapOp :=
  let file : QFileInfo := { isFile := true }
  let lib := QByteArray.ofString "/lib"
  [.registerElf 0 { addr := 0x1000, len := 0x1000, pgoff := 0, fullPath := file, originalPath := lib },
    .registerElf 0 { addr := 0x2000, len := 0x1000, pgoff := 0x1000, fullPath := file, originalPath := lib },
    .registerElf 0 { addr := 0x4000, len := 0x1000, pgoff := 0x2000, fullPath := file, originalPath := lib },
    .registerElf 0
      { addr := 0x2800, len := 0x800, pgoff := 0, fullPath := file, originalPath := QByteArray.ofString "/app" },
    .registerElf 1 { addr := 0x10000, len := 0x2000, pgoff := 0, fullPath := file, originalPath := lib },
    .registerElf 1 { addr := 0x13000, len := 0x1000, pgoff := 0x2000, fullPath := file, originalPath := lib },
    .copyDataFrom 2 1]

/-- Its second segment is one page further on. -/
def segmentedLayout : FileLayout := fun _ address => if address < 0x3000 then address else address - 0x1000

theorem follows_segmentedLibrary : Always (Follows segmentedLayout) segmentedLibrary := by
  have hfollows : ∀ (pre : List MapOp) (map : Nat) (m : Mapping) (s : PerfElfMap.Scan)
      (across : List (PerfElfMap.Scan × ElfInfo)) (base addr len pgoff : UInt64),
      PerfElfMap.scan m.originalPath (PerfElfMap.startScan m) 0 (ElfMaps.after pre map).elfs = (s, false) →
      PerfElfMap.overwritten m.originalPath (PerfElfMap.startScan m) 0 (ElfMaps.after pre map).elfs = across →
      across.all (fun p => !p.2.hasBaseAddr && p.2.addr + p.2.length ≤ p.1.addrEnd) = true →
      (PerfElfMap.newBase (ElfMaps.after pre map).lastBase m s.addr, s.addr, s.len, s.pgoff) =
        (base, addr, len, pgoff) →
      (∀ path, segmentedLayout.Places path base addr len pgoff) → Follows segmentedLayout pre (.registerElf map m) := by
    intro pre map m s across base addr len pgoff hscan hover hall hrange hplaces
    have hall := List.all_eq_true.1 hall
    simp only [Bool.and_eq_true, Bool.not_eq_true', decide_eq_true_eq] at hall
    simp only [Prod.mk.injEq] at hrange
    obtain ⟨rfl, rfl, rfl, rfl⟩ := hrange
    refine ⟨fun s' hs' _ => ?_, fun p hp _ hbase => ?_, fun p hp _ hgt => ?_⟩
    · obtain ⟨rfl, -⟩ := Prod.mk.inj (hscan.symm.trans hs')
      exact hplaces _
    · rw [hover] at hp
      exact absurd hbase (by rw [(hall p hp).1]; exact Bool.false_ne_true)
    · rw [hover] at hp
      exact absurd (hall p hp).2 (UInt64.not_le.2 hgt)
  have hplaces : ∀ path base addr len pgoff, (base, addr, len, pgoff) ∈
      ([(0x1000, 0x1000, 0x1000, 0), (0x1000, 0x1000, 0x2000, 0), (0x1000, 0x4000, 0x1000, 0x2000),
        (0x2800, 0x2800, 0x800, 0), (0x10000, 0x10000, 0x2000, 0), (0x10000, 0x13000, 0x1000, 0x2000)] :
        List (UInt64 × UInt64 × UInt64 × UInt64)) → segmentedLayout.Places path base addr len pgoff := by
    intro path base addr len pgoff h ip hlo hhi
    simp only [List.mem_cons, Prod.mk.injEq, List.not_mem_nil, or_false] at h
    unfold segmentedLayout
    rcases h with ⟨rfl, rfl, rfl, rfl⟩ | ⟨rfl, rfl, rfl, rfl⟩ | ⟨rfl, rfl, rfl, rfl⟩ | ⟨rfl, rfl, rfl, rfl⟩ |
      ⟨rfl, rfl, rfl, rfl⟩ | ⟨rfl, rfl, rfl, rfl⟩ <;> grind
  rw [segmentedLibrary]
  simp only [History.always_cons]
  refine ⟨?_, ?_, ?_, ?_, ?_, ?_, trivial, History.always_nil⟩
  all_goals
    refine hfollows _ _ _ _ _ _ _ _ _ rfl rfl (by decide) rfl (fun path => hplaces path _ _ _ _ ?_)
    decide

end Caches

end PerfParser
