import Mathlib.Algebra.Ring.Nat
import PerfParser.ElfMap
/-!
# ElfRanges — the ranges a registration writes

What the loop of `registerElf` does to the ranges of the mappings, whatever their files and offsets.  `RangeInv` says
where the kept mappings, the fragments and the new range lie; `scan_ends` is the rule of the loop: what its three kinds
of steps preserve holds where it stops.
-/
namespace PerfParser

open Spans

namespace ElfInfo

def lo (e : ElfInfo) : Nat := e.addr.toNat
def hi (e : ElfInfo) : Nat := e.addr.toNat + e.length.toNat

/-- At least one address, without wrap-around. -/
structure Bounded (e : ElfInfo) : Prop where
  pos : 0 < e.length.toNat
  hi_lt : e.hi < 2 ^ 64

theorem Bounded.lo_lt_hi {e : ElfInfo} (h : e.Bounded) : e.lo < e.hi := Nat.lt_add_of_pos_right h.pos

theorem Bounded.toNat_end {e : ElfInfo} (h : e.Bounded) : (e.addr + e.length).toNat = e.hi := by
  rw [UInt64.toNat_add]
  exact Nat.mod_eq_of_lt h.hi_lt

theorem make_noDwfl {f : QFileInfo} {a l p : UInt64} {n q : QByteArray} :
    ¬ (make f a l p n q).dwflStart < (make f a l p n q).dwflEnd := by
  show ¬ (0 : UInt64) < 0
  decide

end ElfInfo

namespace Mapping

def lo (m : Mapping) : Nat := m.addr.toNat
def hi (m : Mapping) : Nat := m.addr.toNat + m.len.toNat

/-- At least one address, without wrap-around. -/
structure Bounded (m : Mapping) : Prop where
  pos : 0 < m.len
  hi_lt : m.addr.toNat + m.len.toNat < 2 ^ 64

theorem Bounded.toNat_end {m : Mapping} (h : m.Bounded) : (m.addr + m.len).toNat = m.hi := by
  rw [UInt64.toNat_add]
  exact Nat.mod_eq_of_lt h.hi_lt

end Mapping

namespace PerfElfMap

/-- The mappings of a process in order and without overlap. -/
structure Ordered (l : List ElfInfo) : Prop where
  laid : Laid ElfInfo.lo ElfInfo.hi l
  bounded : ∀ e ∈ l, e.Bounded

theorem Ordered.nil : Ordered [] := ⟨List.Pairwise.nil, by simp⟩

theorem Ordered.lo_lt_hi {l : List ElfInfo} (h : Ordered l) : ∀ e ∈ l, e.lo < e.hi :=
  fun e he => (h.bounded e he).lo_lt_hi

/-! ## Fragments -/

/-- The part of `i` before the new range. -/
def leftOf (s : Scan) (i : ElfInfo) : ElfInfo :=
  ElfInfo.make i.localFile i.addr (s.addr - i.addr) i.pgoff i.originalFileName i.originalPath

/-- The part of `i` after the new range. -/
def rightOf (s : Scan) (i : ElfInfo) : ElfInfo :=
  ElfInfo.make i.localFile s.addrEnd (i.addr + i.length - s.addrEnd) (i.pgoff + s.addrEnd - i.addr) i.originalFileName
    i.originalPath

/-- What remains of `i` on either side of the new range. -/
def fragments (s : Scan) (i : ElfInfo) : List ElfInfo :=
  (if i.addr < s.addr then [leftOf s i] else []) ++ (if i.addr + i.length > s.addrEnd then [rightOf s i] else [])

theorem overwrite_newElfs (s : Scan) (n : Nat) (i : ElfInfo) :
    (s.overwrite n i).newElfs = s.newElfs ++ fragments s i := List.append_assoc _ _ _

theorem leftOf_range {s : Scan} {i : ElfInfo} (h : i.addr < s.addr) :
    (leftOf s i).lo = i.lo ∧ (leftOf s i).hi = s.addr.toNat ∧ (leftOf s i).Bounded := by
  have hlt : i.addr.toNat < s.addr.toNat := UInt64.lt_iff_toNat_lt.1 h
  have hlen : (s.addr - i.addr).toNat = s.addr.toNat - i.addr.toNat :=
    UInt64.toNat_sub_of_le _ _ (UInt64.le_iff_toNat_le.2 (by omega))
  have hhi : (leftOf s i).hi = s.addr.toNat := by
    show i.addr.toNat + (s.addr - i.addr).toNat = _
    omega
  refine ⟨rfl, hhi, ?_, ?_⟩
  · show 0 < (s.addr - i.addr).toNat
    omega
  · rw [hhi]; exact s.addr.toNat_lt

theorem rightOf_range {s : Scan} {i : ElfInfo} (hi : i.Bounded) (h : i.addr + i.length > s.addrEnd) :
    (rightOf s i).lo = s.addrEnd.toNat ∧ (rightOf s i).hi = i.hi ∧ (rightOf s i).Bounded := by
  have hend : s.addrEnd.toNat < i.hi := by
    have := UInt64.lt_iff_toNat_lt.1 h
    rwa [hi.toNat_end] at this
  have hlen : (i.addr + i.length - s.addrEnd).toNat = i.hi - s.addrEnd.toNat := by
    rw [UInt64.toNat_sub_of_le _ _ (UInt64.le_iff_toNat_le.2 (by rw [hi.toNat_end]; omega)), hi.toNat_end]
  have hhi : (rightOf s i).hi = i.hi := by
    show s.addrEnd.toNat + (i.addr + i.length - s.addrEnd).toNat = _
    omega
  refine ⟨rfl, hhi, ?_, ?_⟩
  · show 0 < (i.addr + i.length - s.addrEnd).toNat
    omega
  · rw [hhi]; exact hi.hi_lt

theorem mem_fragments {s : Scan} {i f : ElfInfo} : f ∈ fragments s i ↔
    (i.addr < s.addr ∧ f = leftOf s i) ∨ (i.addr + i.length > s.addrEnd ∧ f = rightOf s i) := by
  unfold fragments
  rw [List.mem_append]
  refine or_congr ?_ ?_ <;> split <;> simp [*]

/-- The fragments of an overwritten mapping: each a part of it on one side of the new range. -/
theorem fragments_range {s : Scan} {i : ElfInfo} (hi : i.Bounded) (hlt : i.lo < s.addrEnd.toNat)
    (hge : s.addr.toNat ≤ i.hi) {f : ElfInfo} (hf : f ∈ fragments s i) :
    f.Bounded ∧ ¬ f.dwflStart < f.dwflEnd ∧ i.lo ≤ f.lo ∧ f.hi ≤ i.hi ∧
      (f.hi ≤ s.addr.toNat ∨ s.addrEnd.toNat ≤ f.lo) := by
  rcases mem_fragments.1 hf with ⟨h, rfl⟩ | ⟨h, rfl⟩
  · obtain ⟨h1, h2, h3⟩ := leftOf_range h
    exact ⟨h3, ElfInfo.make_noDwfl, by omega, by omega, .inl (by omega)⟩
  · obtain ⟨h1, h2, h3⟩ := rightOf_range hi h
    exact ⟨h3, ElfInfo.make_noDwfl, by omega, by omega, .inr (by omega)⟩

theorem fragments_laid {s : Scan} {i : ElfInfo} (hle : s.addr.toNat ≤ s.addrEnd.toNat) :
    Laid ElfInfo.lo ElfInfo.hi (fragments s i) := by
  unfold Laid fragments
  rw [List.pairwise_append]
  refine ⟨by split <;> simp, by split <;> simp, fun f hf g hg => ?_⟩
  split at hf
  · rename_i h
    split at hg
    · rw [List.mem_singleton.1 hf, List.mem_singleton.1 hg, (leftOf_range h).2.1]
      exact hle
    · cases hg
  · cases hf

/-! ## The loop -/

/-- Where the loop of `registerElf` has put the ranges after the mappings `p`, of which it keeps `kept`. -/
structure RangeInv (m : Mapping) (p kept rest : List ElfInfo) (s : Scan) : Prop where
  lo_le : s.addr.toNat ≤ m.lo
  le_hi : m.hi ≤ s.addrEnd.toNat
  len_eq : s.addr.toNat + s.len.toNat = s.addrEnd.toNat
  keptSub : kept.Sublist p
  keptBefore : ∀ e ∈ kept, e.hi ≤ s.addr.toNat
  removed : ∀ t, removeAll (p ++ t) s.removedElfs = kept ++ t
  fragBounded : ∀ f ∈ s.newElfs, f.Bounded ∧ ¬ f.dwflStart < f.dwflEnd
  fragKept : ∀ f ∈ s.newElfs, ∀ e ∈ kept, Apart ElfInfo.lo ElfInfo.hi f e
  fragRest : ∀ f ∈ s.newElfs, ∀ j ∈ rest, f.hi ≤ j.lo
  fragSide : ∀ f ∈ s.newElfs, f.hi ≤ s.addr.toNat ∨ s.addrEnd.toNat ≤ f.lo
  fragLaid : Laid ElfInfo.lo ElfInfo.hi s.newElfs
  touched : (s.newElfs ≠ [] ∨ s.removedElfs ≠ [] ∨ s.invalidated ≠ []) → ∀ j ∈ rest, s.addr.toNat < j.lo

theorem rangeInv_start {m : Mapping} (hm : m.Bounded) (l : List ElfInfo) : RangeInv m [] [] l (startScan m) where
  lo_le := Nat.le_refl _
  le_hi := Nat.le_of_eq hm.toNat_end.symm
  len_eq := hm.toNat_end.symm
  keptSub := List.Sublist.slnil
  keptBefore := by simp
  removed := fun t => rfl
  fragBounded := by simp [startScan]
  fragKept := by simp [startScan]
  fragRest := by simp [startScan]
  fragSide := by simp [startScan]
  fragLaid := List.Pairwise.nil
  touched := by simp [startScan]

/-- Keeping a mapping that ends before the new range. -/
theorem RangeInv.keep {m : Mapping} {p kept rest : List ElfInfo} {s : Scan} {i : ElfInfo}
    (h : RangeInv m p kept (i :: rest) s) (hi : i.hi ≤ s.addr.toNat) :
    RangeInv m (p ++ [i]) (kept ++ [i]) rest s where
  lo_le := h.lo_le
  le_hi := h.le_hi
  len_eq := h.len_eq
  keptSub := h.keptSub.append (List.Sublist.refl _)
  keptBefore := fun e he => by
    rcases List.mem_append.1 he with he | he
    · exact h.keptBefore e he
    · rw [List.mem_singleton.1 he]; exact hi
  removed := fun t => by simpa using h.removed (i :: t)
  fragBounded := h.fragBounded
  fragKept := fun f hf e he => by
    rcases List.mem_append.1 he with he | he
    · exact h.fragKept f hf e he
    · rw [List.mem_singleton.1 he]; exact .inl (h.fragRest f hf i List.mem_cons_self)
  fragRest := fun f hf j hj => h.fragRest f hf j (List.mem_cons_of_mem _ hj)
  fragSide := h.fragSide
  fragLaid := h.fragLaid
  touched := fun ht j hj => h.touched ht j (List.mem_cons_of_mem _ hj)

theorem removeAll_sublist (elfs : List ElfInfo) : ∀ removed : List Nat, (removeAll elfs removed).Sublist elfs
  | [] => List.Sublist.refl elfs
  | index :: removed => (List.eraseIdx_sublist _ index).trans (removeAll_sublist elfs removed)

theorem removeAll_snoc {p t : List ElfInfo} {i : ElfInfo} {r : List Nat} {kept : List ElfInfo}
    (h : ∀ t, removeAll (p ++ t) r = kept ++ t) :
    removeAll (p ++ [i] ++ t) (r ++ [p.length]) = kept ++ t := by
  have he : (p ++ [i] ++ t).eraseIdx p.length = p ++ t := by
    rw [List.append_assoc, List.eraseIdx_append_of_length_le (Nat.le_refl _), Nat.sub_self]
    rfl
  unfold removeAll at h ⊢
  rw [List.foldr_append, List.foldr_cons, List.foldr_nil, he]
  exact h t

/-- Earlier fragments lie before the next mapping, hence on the left of a range it reaches into. -/
theorem RangeInv.frag_left {m : Mapping} {p kept rest : List ElfInfo} {s : Scan} {i : ElfInfo}
    (h : RangeInv m p kept (i :: rest) s) (hlt : i.lo < s.addrEnd.toNat) {f : ElfInfo} (hf : f ∈ s.newElfs) :
    f.hi ≤ i.lo ∧ f.hi ≤ s.addr.toNat := by
  have h1 := h.fragRest f hf i List.mem_cons_self
  have h2 := (h.fragBounded f hf).1.lo_lt_hi
  rcases h.fragSide f hf with h3 | h3
  · exact ⟨h1, h3⟩
  · omega

/-- The range extended over `i`. -/
theorem extend_range {s : Scan} {i : ElfInfo} (hi : i.Bounded) (hs : s.addr.toNat + s.len.toNat = s.addrEnd.toNat) :
    (s.extend i).addr.toNat = min s.addr.toNat i.lo ∧ (s.extend i).addrEnd.toNat = max s.addrEnd.toNat i.hi ∧
      (s.extend i).addr.toNat + (s.extend i).len.toNat = (s.extend i).addrEnd.toNat := by
  have hpos := hi.lo_lt_hi
  have haddr : (s.extend i).addr.toNat = min s.addr.toNat i.lo := UInt64.toNat_min _ _
  have hend : (s.extend i).addrEnd.toNat = max s.addrEnd.toNat i.hi := by
    show (max s.addrEnd (i.addr + i.length)).toNat = _
    rw [UInt64.toNat_max, hi.toNat_end]
  refine ⟨haddr, hend, ?_⟩
  show (s.extend i).addr.toNat + ((s.extend i).addrEnd - (s.extend i).addr).toNat = _
  rw [UInt64.toNat_sub_of_le _ _ (by rw [UInt64.le_iff_toNat_le, haddr, hend]; omega), haddr, hend]
  omega

/-- A range extended over a mapping leaves no fragment of it. -/
theorem extend_overwrite_newElfs {s : Scan} {i : ElfInfo} (hi : i.Bounded)
    (hs : s.addr.toNat + s.len.toNat = s.addrEnd.toNat) (n : Nat) :
    ((s.extend i).overwrite n i).newElfs = s.newElfs := by
  obtain ⟨haddr, hend, -⟩ := extend_range hi hs
  have h1 : ¬ i.addr < (s.extend i).addr := by
    rw [UInt64.lt_iff_toNat_lt, haddr]
    show ¬ i.lo < _
    omega
  have h2 : ¬ i.addr + i.length > (s.extend i).addrEnd := by
    rw [gt_iff_lt, UInt64.lt_iff_toNat_lt, hend, hi.toNat_end]
    omega
  simp only [overwrite_newElfs, fragments, if_neg h1, if_neg h2, List.append_nil]
  rfl

/-- Extending over a mapping of the same file in the same place. -/
theorem RangeInv.merge {m : Mapping} {p kept rest : List ElfInfo} {s : Scan} {i : ElfInfo}
    (h : RangeInv m p kept (i :: rest) s) (hl : Laid ElfInfo.lo ElfInfo.hi (p ++ i :: rest)) (hi : i.Bounded)
    (hlt : i.lo < s.addrEnd.toNat) : RangeInv m (p ++ [i]) kept rest ((s.extend i).overwrite p.length i) := by
  have hpos := hi.lo_lt_hi
  obtain ⟨haddr, hend, hlen⟩ := extend_range hi h.len_eq
  have hfrag := extend_overwrite_newElfs hi h.len_eq p.length
  have hkept : ∀ e ∈ kept, e.hi ≤ i.lo := fun e he =>
    (List.pairwise_append.1 hl).2.2 e (h.keptSub.subset he) i List.mem_cons_self
  have hrest : ∀ j ∈ rest, i.hi ≤ j.lo := (List.pairwise_cons.1 (List.pairwise_append.1 hl).2.1).1
  have hlo := h.lo_le
  have hhi := h.le_hi
  refine
    { lo_le := ?_, le_hi := ?_, len_eq := hlen, keptSub := h.keptSub.trans (List.sublist_append_left p [i]),
      keptBefore := ?_, removed := fun t => removeAll_snoc h.removed, fragBounded := ?_, fragKept := ?_,
      fragRest := ?_, fragSide := ?_, fragLaid := ?_, touched := ?_ }
  · show (s.extend i).addr.toNat ≤ m.lo
    omega
  · show m.hi ≤ (s.extend i).addrEnd.toNat
    omega
  · intro e he
    show e.hi ≤ (s.extend i).addr.toNat
    have := h.keptBefore e he
    have := hkept e he
    omega
  · rw [hfrag]; exact h.fragBounded
  · rw [hfrag]; exact h.fragKept
  · rw [hfrag]; exact fun f hf j hj => h.fragRest f hf j (List.mem_cons_of_mem _ hj)
  · rw [hfrag]
    intro f hf
    left
    show f.hi ≤ (s.extend i).addr.toNat
    have := h.frag_left hlt hf
    omega
  · rw [hfrag]; exact h.fragLaid
  · intro _ j hj
    show (s.extend i).addr.toNat < j.lo
    have := hrest j hj
    omega

/-- Overwriting a mapping of another file, or of another place, that overlaps. -/
theorem RangeInv.overlap {m : Mapping} {p kept rest : List ElfInfo} {s : Scan} {i : ElfInfo}
    (h : RangeInv m p kept (i :: rest) s) (hl : Laid ElfInfo.lo ElfInfo.hi (p ++ i :: rest)) (hi : i.Bounded)
    (hlt : i.lo < s.addrEnd.toNat) (hgt : s.addr.toNat < i.hi) :
    RangeInv m (p ++ [i]) kept rest (s.overwrite p.length i) := by
  have hpi : ∀ e ∈ p, e.hi ≤ i.lo := fun e he => (List.pairwise_append.1 hl).2.2 e he i List.mem_cons_self
  have hrest : ∀ j ∈ rest, i.hi ≤ j.lo := (List.pairwise_cons.1 (List.pairwise_append.1 hl).2.1).1
  have hslen := h.len_eq
  have hge := Nat.le_of_lt hgt
  have hfrag : ∀ f ∈ (s.overwrite p.length i).newElfs, f ∈ s.newElfs ∨ f ∈ fragments s i := fun f hf => by
    rw [overwrite_newElfs] at hf; exact List.mem_append.1 hf
  refine
    { lo_le := h.lo_le, le_hi := h.le_hi, len_eq := h.len_eq,
      keptSub := h.keptSub.trans (List.sublist_append_left p [i]), keptBefore := h.keptBefore,
      removed := fun t => removeAll_snoc h.removed, fragBounded := ?_, fragKept := ?_, fragRest := ?_,
      fragSide := ?_, fragLaid := ?_, touched := ?_ }
  · intro f hf
    rcases hfrag f hf with hf | hf
    · exact h.fragBounded f hf
    · have := fragments_range hi hlt hge hf
      exact ⟨this.1, this.2.1⟩
  · intro f hf e he
    rcases hfrag f hf with hf | hf
    · exact h.fragKept f hf e he
    · have := (fragments_range hi hlt hge hf).2.2.1
      have := hpi e (h.keptSub.subset he)
      exact .inr (by omega)
  · intro f hf j hj
    rcases hfrag f hf with hf | hf
    · exact h.fragRest f hf j (List.mem_cons_of_mem _ hj)
    · have := (fragments_range hi hlt hge hf).2.2.2.1
      have := hrest j hj
      omega
  · intro f hf
    rcases hfrag f hf with hf | hf
    · exact .inl (h.frag_left hlt hf).2
    · exact (fragments_range hi hlt hge hf).2.2.2.2
  · unfold Laid
    rw [overwrite_newElfs, List.pairwise_append]
    refine ⟨h.fragLaid, fragments_laid (by omega), fun f hf g hg => ?_⟩
    have := (fragments_range hi hlt hge hg).2.2.1
    have := (h.frag_left hlt hf).1
    omega
  · intro _ j hj
    have := hrest j hj
    show s.addr.toNat < j.lo
    omega

/-! ### The rule of the loop -/

theorem lt_addrEnd_iff {s : Scan} {i : ElfInfo} : i.addr < s.addrEnd ↔ i.lo < s.addrEnd.toNat :=
  UInt64.lt_iff_toNat_lt

/-- `I` holds along the loop over `l`: of the mappings gone over, those kept of them, the rest and the locals. -/
structure Preserved (m : Mapping) (l : List ElfInfo)
    (I : List ElfInfo → List ElfInfo → List ElfInfo → Scan → Prop) : Prop where
  keep : ∀ {p kept i rest s}, l = p ++ i :: rest → I p kept (i :: rest) s → i.hi ≤ s.addr.toNat →
    I (p ++ [i]) (kept ++ [i]) rest s
  /-- A mapping of the same file in the same place. -/
  merge : ∀ {p kept i rest s}, l = p ++ i :: rest → I p kept (i :: rest) s → i.lo < s.addrEnd.toNat →
    s.addr.toNat ≤ i.hi → s.addr - s.pgoff = i.addr - i.pgoff → m.originalPath = i.originalPath →
    ¬ ((s.extend i).addr = i.addr ∧ (s.extend i).len = i.length) →
    I (p ++ [i]) kept rest ((s.extend i).overwrite p.length i)
  /-- A mapping of another file, or of another place. -/
  overlap : ∀ {p kept i rest s}, l = p ++ i :: rest → I p kept (i :: rest) s → i.lo < s.addrEnd.toNat →
    s.addr.toNat < i.hi → ¬ (s.addr - s.pgoff = i.addr - i.pgoff ∧ m.originalPath = i.originalPath) →
    I (p ++ [i]) kept rest (s.overwrite p.length i)

/-- Where the loop stops: at a mapping that shows all of the new range already, or at the first mapping after it. -/
inductive ScanEnd (m : Mapping) (l : List ElfInfo)
    (I : List ElfInfo → List ElfInfo → List ElfInfo → Scan → Prop) : Scan × Bool → Prop
  | contained {p kept rest : List ElfInfo} {i : ElfInfo} {s : Scan} (split : l = p ++ i :: rest)
      (inv : I p kept (i :: rest) s) (lt : i.lo < s.addrEnd.toNat) (ge : s.addr.toNat ≤ i.hi)
      (skew : s.addr - s.pgoff = i.addr - i.pgoff) (path : m.originalPath = i.originalPath)
      (same : (s.extend i).addr = i.addr ∧ (s.extend i).len = i.length) : ScanEnd m l I (s.extend i, true)
  | finished {p kept rest : List ElfInfo} {s : Scan} (split : l = p ++ rest) (inv : I p kept rest s)
      (after : ∀ j ∈ rest, s.addrEnd.toNat ≤ j.lo) : ScanEnd m l I (s, false)

/-- **What the steps of the loop preserve holds where it stops.** -/
theorem scan_ends {m : Mapping} {l : List ElfInfo} {I : List ElfInfo → List ElfInfo → List ElfInfo → Scan → Prop}
    (hI : Preserved m l I) (hl : Ordered l) : ∀ {rest p kept : List ElfInfo} {s : Scan}, l = p ++ rest →
    I p kept rest s → ScanEnd m l I (scan m.originalPath s p.length rest)
  | [], p, kept, s, hsplit, h => .finished hsplit h (by simp)
  | i :: rest, p, kept, s, hsplit, h => by
    have hi : i.Bounded := hl.bounded i (by rw [hsplit]; simp)
    have hlaid := hl.laid
    rw [hsplit] at hlaid
    have hrest := List.pairwise_cons.1 (List.pairwise_append.1 hlaid).2.1
    have happ : l = (p ++ [i]) ++ rest := by rw [hsplit]; simp
    have hlen : (p ++ [i]).length = p.length + 1 := by simp
    unfold scan
    by_cases hlt : i.addr < s.addrEnd
    · rw [if_pos hlt]
      have hlt' := lt_addrEnd_iff.1 hlt
      by_cases hbefore : i.addr + i.length < s.addr
      · rw [if_pos hbefore, ← hlen]
        have hb : i.hi < s.addr.toNat := by
          have := UInt64.lt_iff_toNat_lt.1 hbefore
          rwa [hi.toNat_end] at this
        exact scan_ends hI hl happ (hI.keep hsplit h (Nat.le_of_lt hb))
      · rw [if_neg hbefore]
        have hge : s.addr.toNat ≤ i.hi := by
          rw [UInt64.lt_iff_toNat_lt, hi.toNat_end] at hbefore
          omega
        by_cases hsame : s.addr - s.pgoff = i.addr - i.pgoff ∧ m.originalPath = i.originalPath
        · rw [if_pos hsame]
          simp only
          by_cases hcont : (s.extend i).addr = i.addr ∧ (s.extend i).len = i.length
          · rw [if_pos hcont]
            exact .contained hsplit h hlt' hge hsame.1 hsame.2 hcont
          · rw [if_neg hcont, ← hlen]
            exact scan_ends hI hl happ (hI.merge hsplit h hlt' hge hsame.1 hsame.2 hcont)
        · rw [if_neg hsame]
          by_cases hadj : i.addr + i.length = s.addr
          · rw [if_pos hadj, ← hlen]
            have hb : i.hi = s.addr.toNat := by rw [← hi.toNat_end, hadj]
            exact scan_ends hI hl happ (hI.keep hsplit h (Nat.le_of_eq hb))
          · rw [if_neg hadj, ← hlen]
            have hne : i.hi ≠ s.addr.toNat := fun he =>
              hadj (UInt64.toNat_inj.1 (by rw [hi.toNat_end, he]))
            exact scan_ends hI hl happ (hI.overlap hsplit h hlt' (by omega) hsame)
    · rw [if_neg hlt]
      refine .finished hsplit h (fun j hj => ?_)
      rw [lt_addrEnd_iff] at hlt
      rcases List.mem_cons.1 hj with rfl | hj
      · omega
      · have := hrest.1 j hj
        have := hi.lo_lt_hi
        omega

/-- A mapping at which the loop stops contains the new range, and nothing has been overwritten before it. -/
theorem RangeInv.contained {m : Mapping} {p kept rest : List ElfInfo} {s : Scan} {i : ElfInfo}
    (h : RangeInv m p kept (i :: rest) s) (hi : i.Bounded)
    (hsame : (s.extend i).addr = i.addr ∧ (s.extend i).len = i.length) :
    i.lo ≤ m.lo ∧ m.hi ≤ i.hi ∧ s.newElfs = [] ∧ s.removedElfs = [] ∧ s.invalidated = [] := by
  obtain ⟨haddr, hend, hlen⟩ := extend_range hi h.len_eq
  have hlo : (s.extend i).addr.toNat = i.lo := by rw [hsame.1]; rfl
  have hlen' : (s.extend i).len.toNat = i.length.toNat := by rw [hsame.2]
  have hihi : i.hi = i.lo + i.length.toNat := rfl
  have h1 := h.lo_le
  have h2 := h.le_hi
  have hnot : ¬ (s.newElfs ≠ [] ∨ s.removedElfs ≠ [] ∨ s.invalidated ≠ []) := fun ht => by
    have := h.touched ht i List.mem_cons_self
    omega
  simp only [not_or, Decidable.not_not] at hnot
  exact ⟨by omega, by omega, hnot⟩

/-! ## One registration -/

/-- The mapping a registration inserts for the range of the scan. -/
def elfOf (m : Mapping) (s : Scan) : ElfInfo :=
  ElfInfo.make m.fullPath s.addr s.len s.pgoff m.originalFileName m.originalPath

/-- A registration only adds a base address to the mapping it inserts, one before it. -/
theorem rebase_fst (lastBase elf : ElfInfo) (path : QByteArray) (h : elf.baseAddr = INVALID_BASE_ADDR) :
    ∃ b, (rebase lastBase elf path).1 = { elf with baseAddr := b } ∧ (b = INVALID_BASE_ADDR ∨ b < elf.addr) := by
  unfold rebase
  split
  · split
    · rename_i hbase
      exact ⟨_, rfl, .inr hbase.2⟩
    · split <;> exact ⟨elf.baseAddr, rfl, .inl h⟩
  · exact ⟨elf.baseAddr, rfl, .inl h⟩

/-- The mappings after a registration that replaced some. -/
theorem registerElf_elfs {map : PerfElfMap} {m : Mapping} {s : Scan}
    (h : scan m.originalPath (startScan m) 0 map.elfs = (s, false)) :
    ∃ b, (map.registerElf m).1.elfs =
        (s.newElfs ++ [{ elfOf m s with baseAddr := b }]).foldl insertElf (removeAll map.elfs s.removedElfs) ∧
      (b = INVALID_BASE_ADDR ∨ b < s.addr) := by
  obtain ⟨b, hb, hbase⟩ := rebase_fst map.lastBase (elfOf m s) m.originalPath rfl
  refine ⟨b, ?_, hbase⟩
  rw [← hb]
  unfold registerElf
  rw [h]
  rfl

theorem registerElf_contained {map : PerfElfMap} {m : Mapping} {s : Scan}
    (h : scan m.originalPath (startScan m) 0 map.elfs = (s, true)) : (map.registerElf m).1 = map := by
  unfold registerElf
  rw [h]

theorem RangeInv.elfOf_range {m : Mapping} (hm : m.Bounded) {p kept rest : List ElfInfo} {s : Scan}
    (h : RangeInv m p kept rest s) (b : UInt64) :
    let elf : ElfInfo := { elfOf m s with baseAddr := b }
    elf.Bounded ∧ elf.lo = s.addr.toNat ∧ elf.hi = s.addrEnd.toNat ∧ ¬ elf.dwflStart < elf.dwflEnd := by
  have hlen := h.len_eq
  have hpos : 0 < m.len.toNat := UInt64.lt_iff_toNat_lt.1 hm.pos
  have h1 := h.lo_le
  have h2 := h.le_hi
  have hm1 : m.lo = m.addr.toNat := rfl
  have hm2 : m.hi = m.addr.toNat + m.len.toNat := rfl
  have hnd : ¬ (elfOf m s).dwflStart < (elfOf m s).dwflEnd := ElfInfo.make_noDwfl
  refine ⟨⟨?_, ?_⟩, rfl, hlen, hnd⟩
  · show 0 < s.len.toNat
    omega
  · show s.addr.toNat + s.len.toNat < 2 ^ 64
    rw [hlen]; exact s.addrEnd.toNat_lt

/-- **A registration keeps the mappings in order and disjoint.** -/
theorem RangeInv.ordered {m : Mapping} (hm : m.Bounded) {l p kept rest : List ElfInfo} {s : Scan} (hl : Ordered l)
    (hsplit : l = p ++ rest) (h : RangeInv m p kept rest s) (after : ∀ j ∈ rest, s.addrEnd.toNat ≤ j.lo) (b : UInt64) :
    Ordered ((s.newElfs ++ [{ elfOf m s with baseAddr := b }]).foldl insertElf (removeAll l s.removedElfs)) := by
  obtain ⟨hs, hlo, hhi, -⟩ := h.elfOf_range hm b
  have hsub : (kept ++ rest).Sublist l := by rw [hsplit]; exact h.keptSub.append (List.Sublist.refl _)
  have hold : ∀ e ∈ kept ++ rest, e ∈ l := fun e he => hsub.subset he
  have hfr : ∀ f ∈ s.newElfs, ∀ e ∈ kept ++ rest, Apart ElfInfo.lo ElfInfo.hi f e := fun f hf e he => by
    rcases List.mem_append.1 he with he | he
    · exact h.fragKept f hf e he
    · exact .inl (h.fragRest f hf e he)
  have hnew : ∀ e ∈ s.newElfs ++ [{ elfOf m s with baseAddr := b }], e.Bounded := fun e he => by
    rcases List.mem_append.1 he with he | he
    · exact (h.fragBounded e he).1
    · rw [List.mem_singleton.1 he]; exact hs
  rw [hsplit, h.removed rest]
  constructor
  · refine laid_foldl_insertAt ElfInfo.lo ElfInfo.hi (hl.laid.sublist ElfInfo.lo ElfInfo.hi hsub)
      (fun e he => hl.lo_lt_hi e (hold e he)) (fun e he => (hnew e he).lo_lt_hi) ?_ (fun e he a ha => ?_)
    · refine List.pairwise_append.2 ⟨h.fragLaid.imp (fun h => .inl h), List.pairwise_singleton _ _,
        fun f hf e he => ?_⟩
      rw [List.mem_singleton.1 he, Apart, hlo, hhi]
      exact h.fragSide f hf
    · rcases List.mem_append.1 he with he | he
      · exact hfr e he a ha
      · rw [List.mem_singleton.1 he, Apart, hlo, hhi]
        rcases List.mem_append.1 ha with ha | ha
        · exact .inr (h.keptBefore a ha)
        · exact .inl (after a ha)
  · intro e he
    rcases (mem_foldl_insertAt _).1 he with he | he
    · exact hnew e he
    · exact hl.bounded e (hold e he)

end PerfElfMap

end PerfParser
