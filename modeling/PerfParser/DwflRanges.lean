import PerfParser.AddressCache
import PerfParser.ElfInvalidation
/-!
# DwflRanges — mappings whose range dwfl reports

`findElf` checks an address against the range dwfl reported for a mapping, once there is one, and `relativeAddress`
asserts that the address lies in the mapping.  The two agree as long as no reported range goes on past its mapping to an
address that no later mapping starts at or before.
-/
namespace PerfParser

open Spans
open History (Always)

/-- The assertions of `relativeAddress`. -/
def ElfInfo.relativeAddressAsserts (elf : ElfInfo) (addr : UInt64) : Bool :=
  let elfAddr := if elf.hasBaseAddr then elf.baseAddr else elf.addr
  elf.isValid && elfAddr ≤ addr && elf.addr + elf.length > addr

/-- What changes the maps of the processes, and the ranges that `reportElf` attaches. -/
inductive ElfMapOp
  | map (op : MapOp)
  | updateElf (map : Nat) (addr dwflStart dwflEnd : UInt64)
deriving DecidableEq, Repr

namespace ElfMaps

def step (maps : ElfMaps) : ElfMapOp → ElfMaps
  | .map op => maps.apply op
  | .updateElf map addr dwflStart dwflEnd => Function.update maps map ((maps map).updateElf addr dwflStart dwflEnd)

def run (ops : List ElfMapOp) : ElfMaps := ops.foldl step (fun _ => {})

/-- Every mapping that is found passes the assertions of `relativeAddress`. -/
def Asserted (maps : ElfMaps) : Prop := ∀ map ip, ((maps map).findElf ip).isValid = true →
  ((maps map).findElf ip).relativeAddressAsserts ip = true

end ElfMaps

namespace ElfMapOp

/-- The mapping that is registered, if any, has an address and does not wrap around. -/
def Bounded : ElfMapOp → Prop
  | .map (.registerElf _ mapping) => mapping.Bounded
  | _ => True

/-- An attached range has no address past its mapping, other than from the start of a later mapping on. -/
def Within (maps : ElfMaps) : ElfMapOp → Prop
  | .map _ => True
  | .updateElf process addr dwflStart dwflEnd => ∀ i, seek ElfInfo.lo addr.toNat (maps process).elfs = some i →
      ∀ ip : UInt64, dwflStart ≤ ip → ip < dwflEnd → i.addr + i.length ≤ ip →
        ∃ j ∈ (maps process).elfs, i.addr < j.addr ∧ j.addr ≤ ip

end ElfMapOp

namespace PerfElfMap

/-! ## One map -/

/-- In order, and no base address after its mapping. -/
structure Based (l : List ElfInfo) : Prop extends Ordered l where
  based : ∀ e ∈ l, e.baseAddr = INVALID_BASE_ADDR ∨ e.baseAddr < e.addr

/-- The range of a mapping has no address past it, other than from the start of a later mapping on. -/
def Stays (l : List ElfInfo) (e : ElfInfo) : Prop := ∀ x, e.dwflStart.toNat ≤ x → x < e.dwflEnd.toNat → e.hi ≤ x →
  ∃ j ∈ l, e.lo < j.lo ∧ j.lo ≤ x

theorem Stays.of_bare {l : List ElfInfo} {e : ElfInfo} (h : ¬ e.dwflStart < e.dwflEnd) : Stays l e := by
  intro x h1 h2 _
  rw [UInt64.lt_iff_toNat_lt] at h
  omega

theorem relativeAddressAsserts_iff {l : List ElfInfo} (hl : Based l) {e : ElfInfo} (he : e ∈ l) {ip : UInt64}
    (hlo : e.lo ≤ ip.toNat) : e.relativeAddressAsserts ip = true ↔ ip.toNat < e.hi := by
  have hvalid : e.isValid = true := decide_eq_true (UInt64.lt_iff_toNat_lt.2 (hl.bounded e he).pos)
  have hbase : (if e.hasBaseAddr then e.baseAddr else e.addr) ≤ ip := by
    rw [UInt64.le_iff_toNat_le]
    split
    · rename_i hhas
      rcases hl.based e he with h | h
      · rw [ElfInfo.hasBaseAddr, h] at hhas
        cases hhas
      · exact Nat.le_trans (Nat.le_of_lt (UInt64.lt_iff_toNat_lt.1 h)) hlo
    · exact hlo
  rw [ElfInfo.relativeAddressAsserts]
  simp only [hvalid, hbase, decide_true, Bool.and_self, Bool.true_and, decide_eq_true_eq]
  rw [gt_iff_lt, UInt64.lt_iff_toNat_lt, (hl.bounded e he).toNat_end]

/-- **The assertions hold of all that is found exactly where every range stays with its mapping.** -/
theorem asserted_iff {map : PerfElfMap} (hl : Based map.elfs) :
    (∀ ip, (map.findElf ip).isValid = true → (map.findElf ip).relativeAddressAsserts ip = true) ↔
      ∀ e ∈ map.elfs, Stays map.elfs e := by
  constructor
  · intro h e he x h1 h2 hx
    by_contra hnone
    have hpos := (hl.bounded e he).lo_lt_hi
    have hip : (UInt64.ofNat x).toNat = x := UInt64.toNat_ofNat_of_lt' (Nat.lt_trans h2 e.dwflEnd.toNat_lt)
    have hseek : seek ElfInfo.lo (UInt64.ofNat x).toNat map.elfs = some e := by
      rw [hip]
      refine seek_of_greatest ElfInfo.lo ElfInfo.hi hl.laid hl.lo_lt_hi he (by omega) (fun j hj hjx => ?_)
      by_contra hlt
      exact hnone ⟨j, hj, by omega, hjx⟩
    have hfind := findElf_of_seek hseek
    rw [if_pos (by rw [UInt64.lt_iff_toNat_lt]; omega),
      if_pos (by rw [UInt64.le_iff_toNat_le, UInt64.lt_iff_toNat_lt, hip]; omega)] at hfind
    have hvalid : e.isValid = true := decide_eq_true (UInt64.lt_iff_toNat_lt.2 (hl.bounded e he).pos)
    have hassert := h (UInt64.ofNat x)
    rw [hfind] at hassert
    have := (relativeAddressAsserts_iff hl he (by omega)).1 (hassert hvalid)
    omega
  · intro h ip hvalid
    obtain ⟨hs, hin⟩ := seek_of_valid hvalid
    generalize map.findElf ip = e at hs hin ⊢
    obtain ⟨he, hlo⟩ := mem_of_seek _ hs
    rw [relativeAddressAsserts_iff hl he hlo]
    split at hin
    · by_contra hpast
      obtain ⟨j, hj, h1, h2⟩ := h e he ip.toNat (UInt64.le_iff_toNat_le.1 hin.1) (UInt64.lt_iff_toNat_lt.1 hin.2)
        (by omega)
      have := le_of_seek ElfInfo.lo ElfInfo.hi hl.laid hl.lo_lt_hi hs j hj h2
      omega
    · rwa [gt_iff_lt, UInt64.lt_iff_toNat_lt, (hl.bounded e he).toNat_end] at hin

/-! ### Registrations -/

theorem registerElf_based {map : PerfElfMap} {m : Mapping} (hl : Based map.elfs) (hm : m.Bounded) :
    Based (map.registerElf m).1.elfs := by
  obtain ⟨new, h⟩ := registerElf_exchange hl.toOrdered hm
  refine ⟨h.ordered, fun e he => ?_⟩
  rcases List.mem_append.1 (h.joined.mem_iff.1 he) with he | he
  · exact hl.based e (h.stayed.subset he)
  · exact (h.bare e he).2

/-- **Registrations keep the ranges with their mappings**: what was mapped stays mapped. -/
theorem registerElf_stays {map : PerfElfMap} {m : Mapping} (hl : Based map.elfs) (hm : m.Bounded)
    (h : ∀ e ∈ map.elfs, Stays map.elfs e) :
    ∀ e ∈ (map.registerElf m).1.elfs, Stays (map.registerElf m).1.elfs e := by
  obtain ⟨new, hx⟩ := registerElf_exchange hl.toOrdered hm
  intro e he
  rcases List.mem_append.1 (hx.joined.mem_iff.1 he) with hstay | hnew
  · intro x h1 h2 hpast
    have he' := hx.stayed.subset hstay
    obtain ⟨j, hj, hej, hjx⟩ := h e he' x h1 h2 hpast
    have hjpos := (hl.bounded j hj).lo_lt_hi
    have hepos := (hl.bounded e he').lo_lt_hi
    -- the start of the later mapping is still mapped, by a mapping after `e`
    obtain ⟨k, hk, hc⟩ := hx.covered j.lo ⟨j, hj, Nat.le_refl _, hjpos⟩
    refine ⟨k, hk, ?_, Nat.le_trans hc.1 hjx⟩
    have hbefore := hl.laid.hi_le_lo ElfInfo.lo ElfInfo.hi hl.lo_lt_hi he' hj hej
    by_contra hke
    have hkc := hc.2
    rw [hx.ordered.laid.eq_of_covers ElfInfo.lo ElfInfo.hi hx.ordered.lo_lt_hi hk he (x := e.lo) ⟨by omega, by omega⟩
      ⟨Nat.le_refl _, hepos⟩] at hkc
    omega
  · exact Stays.of_bare (hx.bare e hnew).1

/-! ### Attached ranges -/

/-- The mapping with the range that is attached to it. -/
def withDwfl (i : ElfInfo) (dwflStart dwflEnd : UInt64) : ElfInfo :=
  { i with dwflStart := dwflStart, dwflEnd := dwflEnd }

/-- The range is attached to the last mapping that starts at or before the address. -/
theorem setDwflRange_spec (addr dwflStart dwflEnd : UInt64) : ∀ l : List ElfInfo,
    (seek ElfInfo.lo addr.toNat l = none ∧ setDwflRange addr dwflStart dwflEnd l = l) ∨
    ∃ pre i post, l = pre ++ i :: post ∧ seek ElfInfo.lo addr.toNat l = some i ∧
      setDwflRange addr dwflStart dwflEnd l = pre ++ withDwfl i dwflStart dwflEnd :: post
  | [] => .inl ⟨rfl, rfl⟩
  | [i] => by
    rw [seek_cons]
    unfold setDwflRange
    by_cases hi : i.addr ≤ addr
    · have hlo : i.lo ≤ addr.toNat := UInt64.le_iff_toNat_le.1 hi
      rw [if_pos hi, if_pos hlo]
      exact .inr ⟨[], i, [], rfl, rfl, rfl⟩
    · have hlo : ¬ i.lo ≤ addr.toNat := fun h => hi (UInt64.le_iff_toNat_le.2 h)
      rw [if_neg hi, if_neg hlo]
      exact .inl ⟨rfl, rfl⟩
  | i :: j :: rest => by
    rw [seek_cons]
    unfold setDwflRange
    by_cases hi : i.addr ≤ addr
    · have hlo : i.lo ≤ addr.toNat := UInt64.le_iff_toNat_le.1 hi
      rw [if_pos hi, if_pos hlo]
      simp only
      by_cases hj : j.addr ≤ addr
      · rw [if_pos hj]
        have hjlo : j.lo ≤ addr.toNat := UInt64.le_iff_toNat_le.1 hj
        rcases setDwflRange_spec addr dwflStart dwflEnd (j :: rest) with ⟨hs, -⟩ | ⟨pre, k, post, hl, hs, hset⟩
        · rw [seek_cons, if_pos hjlo] at hs
          cases hd : seek ElfInfo.lo addr.toNat rest <;> simp [hd] at hs
        · exact .inr ⟨i :: pre, k, post, by rw [hl]; rfl, by rw [hs]; rfl, by rw [hset]; rfl⟩
      · have hjlo : ¬ j.lo ≤ addr.toNat := fun h => hj (UInt64.le_iff_toNat_le.2 h)
        rw [if_neg hj]
        exact .inr ⟨[], i, j :: rest, rfl, by rw [seek_cons, if_neg hjlo]; rfl, rfl⟩
    · have hlo : ¬ i.lo ≤ addr.toNat := fun h => hi (UInt64.le_iff_toNat_le.2 h)
      rw [if_neg hi, if_neg hlo]
      exact .inl ⟨rfl, rfl⟩

theorem updateElf_based {map : PerfElfMap} (hl : Based map.elfs) (addr dwflStart dwflEnd : UInt64) :
    Based (map.updateElf addr dwflStart dwflEnd).elfs := by
  rcases setDwflRange_spec addr dwflStart dwflEnd map.elfs with ⟨-, hset⟩ | ⟨pre, i, post, hsplit, -, hset⟩
  · rw [updateElf, hset]
    exact hl
  · have hold : ∀ e ∈ pre ++ withDwfl i dwflStart dwflEnd :: post, e = withDwfl i dwflStart dwflEnd ∨ e ∈ map.elfs := by
      intro e he
      rw [hsplit]
      rcases List.mem_append.1 he with he | he
      · exact .inr (by simp [he])
      · rcases List.mem_cons.1 he with he | he
        · exact .inl he
        · exact .inr (by simp [he])
    have hi : i ∈ map.elfs := by rw [hsplit]; simp
    have hspans : map.elfs.map (fun e => (e.lo, e.hi)) =
        (pre ++ withDwfl i dwflStart dwflEnd :: post).map (fun e => (e.lo, e.hi)) := by
      rw [hsplit, List.map_append, List.map_append]
      rfl
    rw [updateElf, hset]
    refine ⟨⟨hl.laid.of_map_eq ElfInfo.lo ElfInfo.hi hspans, fun e he => ?_⟩, fun e he => ?_⟩
    · rcases hold e he with rfl | he
      · exact ⟨(hl.bounded i hi).pos, (hl.bounded i hi).hi_lt⟩
      · exact hl.bounded e he
    · rcases hold e he with rfl | he
      · exact hl.based i hi
      · exact hl.based e he

/-- Only the starts of the mappings matter to where a range stays. -/
theorem stays_iff_starts {l : List ElfInfo} {e : ElfInfo} : Stays l e ↔
    ∀ x, e.dwflStart.toNat ≤ x → x < e.dwflEnd.toNat → e.hi ≤ x → ∃ n ∈ l.map ElfInfo.lo, e.lo < n ∧ n ≤ x := by
  simp only [Stays, List.mem_map, exists_exists_and_eq_and]

/-- **An attached range has to stay with its mapping**, and no other range is affected. -/
theorem updateElf_stays_iff {map : PerfElfMap} (addr dwflStart dwflEnd : UInt64)
    (h : ∀ e ∈ map.elfs, Stays map.elfs e) :
    (∀ e ∈ (map.updateElf addr dwflStart dwflEnd).elfs, Stays (map.updateElf addr dwflStart dwflEnd).elfs e) ↔
      ∀ i, seek ElfInfo.lo addr.toNat map.elfs = some i → Stays map.elfs (withDwfl i dwflStart dwflEnd) := by
  rcases setDwflRange_spec addr dwflStart dwflEnd map.elfs with ⟨hs, hset⟩ | ⟨pre, i, post, hsplit, hs, hset⟩
  · rw [updateElf, hset, hs]
    exact iff_of_true h (fun i hi => by cases hi)
  · have hstarts : (pre ++ withDwfl i dwflStart dwflEnd :: post).map ElfInfo.lo = map.elfs.map ElfInfo.lo := by
      rw [hsplit, List.map_append, List.map_append]
      rfl
    have hstays : ∀ e, Stays (pre ++ withDwfl i dwflStart dwflEnd :: post) e ↔ Stays map.elfs e := fun e => by
      rw [stays_iff_starts, stays_iff_starts, hstarts]
    simp only [updateElf, hset, hs, hstays, Option.some.injEq, forall_eq']
    constructor
    · exact fun hall => hall _ (by simp)
    · intro hi e he
      rcases List.mem_append.1 he with he | he
      · exact h e (by rw [hsplit]; simp [he])
      · rcases List.mem_cons.1 he with rfl | he
        · exact hi
        · exact h e (by rw [hsplit]; simp [he])

end PerfElfMap

/-! ## Whole runs -/

namespace ElfMaps

open PerfElfMap

/-- What holds of all mappings holds after a change to one process exactly if it holds of what that has now. -/
theorem forall_update_iff {P : PerfElfMap → Prop} {maps : ElfMaps} (h : ∀ map, P (maps map)) (process : Nat)
    (new : PerfElfMap) : (∀ map, P (Function.update maps process new map)) ↔ P new := by
  constructor
  · intro hall
    have := hall process
    rwa [Function.update_self] at this
  · intro hnew map
    rw [Function.update_apply]
    split
    · exact hnew
    · exact h map

theorem step_based {maps : ElfMaps} {op : ElfMapOp} (hop : op.Bounded) (hl : ∀ map, Based (maps map).elfs) :
    ∀ map, Based (maps.step op map).elfs := by
  have hupdate := forall_update_iff (P := fun map => Based map.elfs) hl
  cases op with
  | map op =>
    cases op with
    | registerElf process mapping => exact (hupdate process _).2 (registerElf_based (hl process) hop)
    | copyDataFrom process parent => exact (hupdate process _).2 (hl parent)
  | updateElf process addr dwflStart dwflEnd => exact (hupdate process _).2 (updateElf_based (hl process) _ _ _)

theorem within_iff {maps : ElfMaps} (hl : ∀ map, Based (maps map).elfs) (process : Nat)
    (addr dwflStart dwflEnd : UInt64) : ElfMapOp.Within maps (.updateElf process addr dwflStart dwflEnd) ↔
      ∀ i, seek ElfInfo.lo addr.toNat (maps process).elfs = some i →
        Stays (maps process).elfs (withDwfl i dwflStart dwflEnd) := by
  refine forall_congr' fun i => forall_congr' fun hi => ?_
  have hend := ((hl process).bounded i (mem_of_seek _ hi).1).toNat_end
  constructor
  · intro h x h1 h2 h3
    have hip : (UInt64.ofNat x).toNat = x := UInt64.toNat_ofNat_of_lt' (Nat.lt_trans h2 dwflEnd.toNat_lt)
    obtain ⟨j, hj, hij, hjx⟩ := h (UInt64.ofNat x) (by rw [UInt64.le_iff_toNat_le, hip]; exact h1)
      (by rw [UInt64.lt_iff_toNat_lt, hip]; exact h2) (by rw [UInt64.le_iff_toNat_le, hip, hend]; exact h3)
    rw [UInt64.le_iff_toNat_le, hip] at hjx
    exact ⟨j, hj, UInt64.lt_iff_toNat_lt.1 hij, hjx⟩
  · intro h ip h1 h2 h3
    rw [UInt64.le_iff_toNat_le, hend] at h3
    obtain ⟨j, hj, hij, hjx⟩ := h ip.toNat (UInt64.le_iff_toNat_le.1 h1) (UInt64.lt_iff_toNat_lt.1 h2) h3
    exact ⟨j, hj, UInt64.lt_iff_toNat_lt.2 hij, UInt64.le_iff_toNat_le.2 hjx⟩

theorem asserted_iff_stays {maps : ElfMaps} (hl : ∀ map, Based (maps map).elfs) :
    Asserted maps ↔ ∀ map, ∀ e ∈ (maps map).elfs, Stays (maps map).elfs e :=
  forall_congr' fun map => asserted_iff (hl map)

/-- **A step keeps the assertions exactly where the range it attaches, if any, stays with its mapping.** -/
theorem step_asserted {maps : ElfMaps} {op : ElfMapOp} (hop : op.Bounded) (hl : ∀ map, Based (maps map).elfs)
    (h : Asserted maps) : Asserted (maps.step op) ↔ op.Within maps := by
  rw [asserted_iff_stays hl] at h
  rw [asserted_iff_stays (step_based hop hl)]
  have hupdate := forall_update_iff (P := fun map => ∀ e ∈ map.elfs, Stays map.elfs e) h
  cases op with
  | map op =>
    cases op with
    | registerElf process mapping =>
      exact iff_of_true ((hupdate process _).2 (registerElf_stays (hl process) hop (h process))) trivial
    | copyDataFrom process parent => exact iff_of_true ((hupdate process _).2 (h parent)) trivial
  | updateElf process addr dwflStart dwflEnd =>
    rw [within_iff hl]
    exact (hupdate process _).trans (updateElf_stays_iff addr dwflStart dwflEnd (h process))

/-- **The assertions of `relativeAddress` hold along a run exactly when every range that is attached stays with its
mapping.** -/
theorem relativeAddress_asserted_iff (ops : List ElfMapOp) (hops : ∀ op ∈ ops, op.Bounded) :
    (∀ pre, pre <+: ops → Asserted (run pre)) ↔ Always (fun pre op => op.Within (run pre)) ops := by
  have hstart : Asserted (fun _ => {}) := fun _ _ (hvalid : ({} : ElfInfo).isValid = true) =>
    absurd hvalid ElfInfo.not_isValid_empty
  exact History.forall_prefix_iff (I := fun maps : ElfMaps => ∀ map, Based (maps map).elfs) (A := ElfMapOp.Bounded)
    (fun _ _ hop hl => step_based hop hl) (fun _ _ hop hl h => step_asserted hop hl h)
    (fun _ => ⟨Ordered.nil, by simp⟩) hstart ops hops

/-- A library of one page, and the end of it that dwfl reports. -/
def reportedLibrary (dwflEnd : UInt64) : List ElfMapOp :=
  [.map (.registerElf 0 { addr := 0x1000, len := 0x1000, pgoff := 0, originalPath := [97] })] ++
    [.updateElf 0 0x1000 0x1000 dwflEnd]

theorem reportedLibrary_bounded (dwflEnd : UInt64) : ∀ op ∈ reportedLibrary dwflEnd, op.Bounded := by
  intro op hop
  rcases List.mem_cons.1 hop with rfl | hop
  · exact ⟨by decide, by decide⟩
  · rw [List.mem_singleton.1 hop]
    trivial

theorem relativeAddress_asserted_page : Asserted (run (reportedLibrary 0x2000)) := by
  refine (relativeAddress_asserted_iff (reportedLibrary 0x2000) (reportedLibrary_bounded 0x2000)).2 ?_ _
    (List.prefix_refl _)
  refine History.always_snoc.2 ⟨History.always_snoc (l := []).2 ⟨History.always_nil, trivial⟩, ?_⟩
  intro i hi ip _ hend hpast
  have hlibrary : (seek ElfInfo.lo (0x1000 : UInt64).toNat (run ((reportedLibrary 0x2000).take 1) 0).elfs).map
      (fun i => i.addr + i.length) = some 0x2000 := by decide
  rw [show seek ElfInfo.lo (0x1000 : UInt64).toNat (run ((reportedLibrary 0x2000).take 1) 0).elfs = some i from hi,
    Option.map_some, Option.some.injEq] at hlibrary
  rw [hlibrary] at hpast
  exact absurd hend (UInt64.not_lt.2 hpast)

/-- **An address past the mapping is found in it**: dwfl reported a range that goes on. -/
theorem not_relativeAddress_asserted :
    ¬∀ ops : List ElfMapOp, (∀ op ∈ ops, op.Bounded) → Asserted (run ops) := by
  intro h
  have hassert := h (reportedLibrary 0x3000) (reportedLibrary_bounded 0x3000) 0 0x2000 (by decide)
  revert hassert
  decide

end ElfMaps

end PerfParser
