import Mathlib.Data.List.Induction
import Mathlib.Tactic.FinCases
import Mathlib.Tactic.Tauto
import PerfParser.ElfRanges
/-!
# ElfMapRefine — the sorted vector is a last-writer-wins address space

`Maps l x q k` reads a list of mappings as an address space: the point `x` shows the file `q` at the offset `x - k`.  A
registration writes its own range and leaves every other point as it was (`registerElf_maps`), whatever it overlaps,
splits or merges; the vector stays sorted and disjoint.
-/
namespace PerfParser

open Spans

namespace ElfInfo

/-- Address minus file offset: where the file's first byte would be mapped. -/
def skew (e : ElfInfo) : UInt64 := e.addr - e.pgoff

/-- A stored mapping without wrap-around, named by its path. -/
structure Sound (e : ElfInfo) : Prop where
  pos : 0 < e.length.toNat
  hi_lt : e.hi < 2 ^ 64
  pgoff_lt : e.pgoff.toNat + e.length.toNat < 2 ^ 64
  path : e.originalPath ≠ []

theorem Sound.bounded {e : ElfInfo} (h : e.Sound) : e.Bounded := ⟨h.pos, h.hi_lt⟩

theorem Sound.lo_lt_hi {e : ElfInfo} (h : e.Sound) : e.lo < e.hi := h.bounded.lo_lt_hi

theorem Sound.toNat_end {e : ElfInfo} (h : e.Sound) : (e.addr + e.length).toNat = e.hi := h.bounded.toNat_end

theorem make_path {f : QFileInfo} {a l p : UInt64} {n q : QByteArray} (hq : q ≠ []) :
    (make f a l p n q).originalPath = q := by
  unfold make
  cases q with
  | nil => exact absurd rfl hq
  | cons b q => rfl

theorem not_isValid_empty : ¬ ({} : ElfInfo).isValid = true := by decide

end ElfInfo

namespace Mapping

def skew (m : Mapping) : UInt64 := m.addr - m.pgoff

/-- A mapping as the kernel emits it. -/
structure KernelLike (m : Mapping) : Prop where
  pos : 0 < m.len
  hi_lt : m.addr.toNat + m.len.toNat < 2 ^ 64
  pgoff_lt : m.pgoff.toNat + m.len.toNat < 2 ^ 64
  path : m.originalPath ≠ []

theorem KernelLike.bounded {m : Mapping} (h : m.KernelLike) : m.Bounded := ⟨h.pos, h.hi_lt⟩

end Mapping

/-- The point `x` shows the file `q` at offset `x - k`. -/
def Maps (l : List ElfInfo) (x : Nat) (q : QByteArray) (k : UInt64) : Prop :=
  ∃ e ∈ l, Covers ElfInfo.lo ElfInfo.hi e x ∧ e.originalPath = q ∧ e.skew = k

theorem maps_append {l l' : List ElfInfo} {x : Nat} {q : QByteArray} {k : UInt64} :
    Maps (l ++ l') x q k ↔ Maps l x q k ∨ Maps l' x q k := by
  simp only [Maps, List.mem_append, or_and_right, exists_or]

theorem maps_singleton {e : ElfInfo} {x : Nat} {q : QByteArray} {k : UInt64} :
    Maps [e] x q k ↔ Covers ElfInfo.lo ElfInfo.hi e x ∧ e.originalPath = q ∧ e.skew = k := by
  simp [Maps]

theorem not_maps_singleton {e : ElfInfo} {x : Nat} {q : QByteArray} {k : UInt64}
    (h : ¬ Covers ElfInfo.lo ElfInfo.hi e x) : ¬ Maps [e] x q k := fun hm => h (maps_singleton.1 hm).1

/-! ## Equal skews, without wrap-around -/

/-- Two mappings of the same file in the same place differ in address and offset by the same amount. -/
theorem pgoff_of_skew {a p b q : UInt64} (h : a - p = b - q) (hab : a.toNat ≤ b.toNat)
    (hp : p.toNat + (b.toNat - a.toNat) < 2 ^ 64) : q.toNat = p.toNat + (b.toNat - a.toNat) := by
  have hq : q = p + (b - a) := by grind
  rw [hq, UInt64.toNat_add, UInt64.toNat_sub_of_le _ _ (UInt64.le_iff_toNat_le.2 hab), Nat.mod_eq_of_lt hp]

namespace PerfElfMap

/-- The mappings of a process in order, without overlap, none with a range reported by dwfl. -/
structure WellFormed (l : List ElfInfo) : Prop where
  laid : Laid ElfInfo.lo ElfInfo.hi l
  sound : ∀ e ∈ l, e.Sound
  noDwfl : ∀ e ∈ l, ¬ e.dwflStart < e.dwflEnd

theorem WellFormed.nil : WellFormed [] := ⟨List.Pairwise.nil, by simp, by simp⟩

theorem WellFormed.ordered {l : List ElfInfo} (h : WellFormed l) : Ordered l :=
  ⟨h.laid, fun e he => (h.sound e he).bounded⟩

theorem WellFormed.lo_lt_hi {l : List ElfInfo} (h : WellFormed l) : ∀ e ∈ l, e.lo < e.hi :=
  fun e he => (h.sound e he).lo_lt_hi

/-! ## The loop -/

/-- What the loop of `registerElf` has established after the mappings `p`, of which it keeps `kept`. -/
structure ScanInv (m : Mapping) (p kept rest : List ElfInfo) (s : Scan) : Prop where
  lo_le : s.addr.toNat ≤ m.lo
  le_hi : m.hi ≤ s.addrEnd.toNat
  len_eq : s.addr.toNat + s.len.toNat = s.addrEnd.toNat
  pgoff_lt : s.pgoff.toNat + s.len.toNat < 2 ^ 64
  skew_eq : s.addr - s.pgoff = m.skew
  keptSub : kept.Sublist p
  keptBefore : ∀ e ∈ kept, e.hi ≤ s.addr.toNat
  removed : ∀ t, removeAll (p ++ t) s.removedElfs = kept ++ t
  fragSound : ∀ f ∈ s.newElfs, f.Sound ∧ ¬ f.dwflStart < f.dwflEnd
  fragKept : ∀ f ∈ s.newElfs, ∀ e ∈ kept, Apart ElfInfo.lo ElfInfo.hi f e
  fragRest : ∀ f ∈ s.newElfs, ∀ j ∈ rest, f.hi ≤ j.lo
  fragSide : ∀ f ∈ s.newElfs, f.hi ≤ s.addr.toNat ∨ s.addrEnd.toNat ≤ f.lo
  fragLaid : Laid ElfInfo.lo ElfInfo.hi s.newElfs
  /-- Outside the new range nothing is lost. -/
  outside : ∀ x, ¬ (s.addr.toNat ≤ x ∧ x < s.addrEnd.toNat) → ∀ q k, Maps p x q k ↔ Maps (kept ++ s.newElfs) x q k
  /-- Where the new range was extended, the same file was in the same place. -/
  inside : ∀ x, s.addr.toNat ≤ x → x < s.addrEnd.toNat → ¬ (m.lo ≤ x ∧ x < m.hi) →
    ∀ q k, Maps p x q k ↔ m.originalPath = q ∧ m.skew = k
  touched : (s.newElfs ≠ [] ∨ s.removedElfs ≠ [] ∨ s.invalidated ≠ []) → ∀ j ∈ rest, s.addr.toNat < j.lo

theorem ScanInv.ranges {m : Mapping} {p kept rest : List ElfInfo} {s : Scan} (h : ScanInv m p kept rest s) :
    RangeInv m p kept rest s :=
  { h with fragBounded := fun f hf => ⟨(h.fragSound f hf).1.bounded, (h.fragSound f hf).2⟩ }

theorem scanInv_start {m : Mapping} (hm : m.KernelLike) (l : List ElfInfo) : ScanInv m [] [] l (startScan m) :=
  { rangeInv_start hm.bounded l with
    pgoff_lt := hm.pgoff_lt
    skew_eq := rfl
    fragSound := by simp [startScan]
    outside := fun x _ q k => Iff.rfl
    inside := fun x h1 h2 hn => absurd ⟨h1, Nat.lt_of_lt_of_eq h2 hm.bounded.toNat_end⟩ hn }

/-- Keeping a mapping that ends before the new range. -/
theorem ScanInv.keep {m : Mapping} {p kept rest : List ElfInfo} {s : Scan} {i : ElfInfo}
    (h : ScanInv m p kept (i :: rest) s) (hi : i.hi ≤ s.addr.toNat) : ScanInv m (p ++ [i]) (kept ++ [i]) rest s :=
  { h.ranges.keep hi with
    pgoff_lt := h.pgoff_lt
    skew_eq := h.skew_eq
    fragSound := h.fragSound
    outside := fun x hx q k => by
      have := h.outside x hx q k
      simp only [maps_append] at this ⊢
      rw [this]
      constructor
      · rintro ((h1 | h1) | h1) <;> simp [h1]
      · rintro ((h1 | h1) | h1) <;> simp [h1]
    inside := fun x h1 h2 hn q k => by
      rw [maps_append, h.inside x h1 h2 hn q k]
      have : ¬ Covers ElfInfo.lo ElfInfo.hi i x := fun hc => by have := hc.2; omega
      simp [not_maps_singleton this] }

/-- The union of two ranges with one skew has it too: the one that starts first decides whose offset is kept. -/
theorem ScanInv.extend_skew {m : Mapping} {p kept rest : List ElfInfo} {s : Scan} {i : ElfInfo}
    (h : ScanInv m p kept (i :: rest) s) (hi : i.Sound) (hlt : i.lo < s.addrEnd.toNat) (hge : s.addr.toNat ≤ i.hi)
    (hskew : s.addr - s.pgoff = i.addr - i.pgoff) :
    (s.extend i).pgoff.toNat + (s.extend i).len.toNat < 2 ^ 64 ∧ (s.extend i).addr - (s.extend i).pgoff = m.skew := by
  have hpos := hi.lo_lt_hi
  obtain ⟨haddr, hend, hlen⟩ := extend_range hi.bounded h.len_eq
  have hpg : (s.extend i).pgoff.toNat = min s.pgoff.toNat i.pgoff.toNat := UInt64.toNat_min _ _
  have hslen := h.len_eq
  have hspg := h.pgoff_lt
  have hipg := hi.pgoff_lt
  have hihi : i.hi = i.lo + i.length.toNat := rfl
  rcases Nat.le_total s.addr.toNat i.lo with hle | hle
  · have hq : i.pgoff.toNat = s.pgoff.toNat + (i.lo - s.addr.toNat) := pgoff_of_skew hskew hle (by
      show s.pgoff.toNat + (i.lo - s.addr.toNat) < 2 ^ 64
      omega)
    refine ⟨by omega, ?_⟩
    have e1 : (s.extend i).addr = s.addr := UInt64.toNat_inj.1 (by omega)
    have e2 : (s.extend i).pgoff = s.pgoff := UInt64.toNat_inj.1 (by omega)
    rw [e1, e2, h.skew_eq]
  · have hq : s.pgoff.toNat = i.pgoff.toNat + (s.addr.toNat - i.lo) := pgoff_of_skew hskew.symm hle (by
      show i.pgoff.toNat + (s.addr.toNat - i.lo) < 2 ^ 64
      omega)
    refine ⟨by omega, ?_⟩
    have e1 : (s.extend i).addr = i.addr := UInt64.toNat_inj.1 (by show _ = i.lo; omega)
    have e2 : (s.extend i).pgoff = i.pgoff := UInt64.toNat_inj.1 (by omega)
    rw [e1, e2, ← hskew, h.skew_eq]

/-- Extending over a mapping of the same file in the same place. -/
theorem ScanInv.merge {m : Mapping} {p kept rest : List ElfInfo} {s : Scan} {i : ElfInfo}
    (h : ScanInv m p kept (i :: rest) s) (hl : Laid ElfInfo.lo ElfInfo.hi (p ++ i :: rest)) (hi : i.Sound)
    (hlt : i.lo < s.addrEnd.toNat) (hge : s.addr.toNat ≤ i.hi) (hskew : s.addr - s.pgoff = i.addr - i.pgoff)
    (hpath : m.originalPath = i.originalPath) :
    ScanInv m (p ++ [i]) kept rest ((s.extend i).overwrite p.length i) := by
  have hpos := hi.lo_lt_hi
  obtain ⟨haddr, hend, hlen⟩ := extend_range hi.bounded h.len_eq
  have hpgoff := h.extend_skew hi hlt hge hskew
  have hfrag := extend_overwrite_newElfs hi.bounded h.len_eq p.length
  have hpi : ∀ e ∈ p, e.hi ≤ i.lo := fun e he => (List.pairwise_append.1 hl).2.2 e he i List.mem_cons_self
  have hlo := h.lo_le
  have hhi := h.le_hi
  have hiskew : i.skew = m.skew := hskew.symm.trans h.skew_eq
  refine
    { h.ranges.merge hl hi.bounded hlt with
      pgoff_lt := hpgoff.1, skew_eq := hpgoff.2, fragSound := ?_, outside := ?_, inside := ?_ }
  · rw [hfrag]; exact h.fragSound
  · rw [hfrag]
    intro x hx q k
    have hx' : ¬ ((s.extend i).addr.toNat ≤ x ∧ x < (s.extend i).addrEnd.toNat) := hx
    have hc : ¬ Covers ElfInfo.lo ElfInfo.hi i x := fun hc => by have h1 := hc.1; have h2 := hc.2; omega
    rw [maps_append, h.outside x (by omega) q k]
    simp [not_maps_singleton hc]
  · intro x h1 h2 hn q k
    have h1' : (s.extend i).addr.toNat ≤ x := h1
    have h2' : x < (s.extend i).addrEnd.toNat := h2
    rw [maps_append, maps_singleton, ← hpath, hiskew]
    by_cases hs : s.addr.toNat ≤ x ∧ x < s.addrEnd.toNat
    · rw [h.inside x hs.1 hs.2 hn q k]
      exact ⟨fun h => h.elim id (fun h => h.2), Or.inl⟩
    · -- the point lies in the part that `i` adds
      have hc : Covers ElfInfo.lo ElfInfo.hi i x := ⟨by omega, by omega⟩
      have hnp : ¬ Maps p x q k := by
        rintro ⟨e, he, hce, -⟩
        have := hpi e he
        have := hce.2
        have := hc.1
        omega
      simp [hnp, hc]

/-! ### Overwriting a mapping -/

theorem leftOf_spec {s : Scan} {i : ElfInfo} (hi : i.Sound) (h : i.addr < s.addr) (hge : s.addr.toNat ≤ i.hi) :
    (leftOf s i).skew = i.skew ∧ (leftOf s i).originalPath = i.originalPath ∧ (leftOf s i).Sound := by
  obtain ⟨hlo, hhi, hb⟩ := leftOf_range h
  have hpath := ElfInfo.make_path (f := i.localFile) (a := i.addr) (l := s.addr - i.addr) (p := i.pgoff)
    (n := i.originalFileName) hi.path
  have hlen : (leftOf s i).hi = i.lo + (s.addr - i.addr).toNat := rfl
  have hihi : i.hi = i.lo + i.length.toNat := rfl
  refine ⟨rfl, hpath, hb.pos, hb.hi_lt, ?_, ?_⟩
  · show i.pgoff.toNat + (s.addr - i.addr).toNat < 2 ^ 64
    have := hi.pgoff_lt
    omega
  · show (leftOf s i).originalPath ≠ []
    unfold leftOf
    rw [hpath]; exact hi.path

theorem rightOf_spec {s : Scan} {i : ElfInfo} (hi : i.Sound) (h : i.addr + i.length > s.addrEnd)
    (hlt : i.lo < s.addrEnd.toNat) :
    (rightOf s i).skew = i.skew ∧ (rightOf s i).originalPath = i.originalPath ∧ (rightOf s i).Sound := by
  obtain ⟨hlo, hhi, hb⟩ := rightOf_range hi.bounded h
  have hpath := ElfInfo.make_path (f := i.localFile) (a := s.addrEnd) (l := i.addr + i.length - s.addrEnd)
    (p := i.pgoff + s.addrEnd - i.addr) (n := i.originalFileName) hi.path
  have hlen : (rightOf s i).hi = s.addrEnd.toNat + (i.addr + i.length - s.addrEnd).toNat := rfl
  have hend := hb.lo_lt_hi
  have hihi : i.hi = i.lo + i.length.toNat := rfl
  have hipg := hi.pgoff_lt
  have hpg : (i.pgoff + s.addrEnd - i.addr).toNat = i.pgoff.toNat + (s.addrEnd.toNat - i.lo) :=
    pgoff_of_skew (a := i.addr) (b := s.addrEnd) (by grind) (Nat.le_of_lt hlt) (by
      show i.pgoff.toNat + (s.addrEnd.toNat - i.lo) < 2 ^ 64
      omega)
  refine ⟨?_, hpath, hb.pos, hb.hi_lt, ?_, ?_⟩
  · show s.addrEnd - (i.pgoff + s.addrEnd - i.addr) = i.addr - i.pgoff
    grind
  · show (i.pgoff + s.addrEnd - i.addr).toNat + (i.addr + i.length - s.addrEnd).toNat < 2 ^ 64
    omega
  · show (rightOf s i).originalPath ≠ []
    unfold rightOf
    rw [hpath]; exact hi.path

theorem fragments_sound {s : Scan} {i : ElfInfo} (hi : i.Sound) (hlt : i.lo < s.addrEnd.toNat)
    (hge : s.addr.toNat ≤ i.hi) {f : ElfInfo} (hf : f ∈ fragments s i) : f.Sound := by
  rcases mem_fragments.1 hf with ⟨h, rfl⟩ | ⟨h, rfl⟩
  · exact (leftOf_spec hi h hge).2.2
  · exact (rightOf_spec hi h hlt).2.2

/-- **The fragments show outside the new range what the mapping showed.** -/
theorem maps_fragments {s : Scan} {i : ElfInfo} (hi : i.Sound) (hlt : i.lo < s.addrEnd.toNat)
    (hge : s.addr.toNat ≤ i.hi) {x : Nat} (hx : ¬ (s.addr.toNat ≤ x ∧ x < s.addrEnd.toNat)) (q : QByteArray)
    (k : UInt64) : Maps (fragments s i) x q k ↔ Maps [i] x q k := by
  rw [fragments, maps_append, maps_singleton]
  have hleft : Maps (if i.addr < s.addr then [leftOf s i] else []) x q k ↔
      (i.lo ≤ x ∧ x < s.addr.toNat) ∧ i.originalPath = q ∧ i.skew = k := by
    split
    · rename_i h
      obtain ⟨h1, h2, -⟩ := leftOf_range h
      obtain ⟨h3, h4, -⟩ := leftOf_spec hi h hge
      rw [maps_singleton, Covers, h1, h2, h3, h4]
    · rename_i h
      have : ¬ i.addr.toNat < s.addr.toNat := fun h' => h (UInt64.lt_iff_toNat_lt.2 h')
      have hl : i.lo = i.addr.toNat := rfl
      constructor
      · rintro ⟨e, he, -⟩
        cases he
      · rintro ⟨⟨h1, h2⟩, -⟩
        omega
  have hright : Maps (if i.addr + i.length > s.addrEnd then [rightOf s i] else []) x q k ↔
      (s.addrEnd.toNat ≤ x ∧ x < i.hi) ∧ i.originalPath = q ∧ i.skew = k := by
    split
    · rename_i h
      obtain ⟨h1, h2, -⟩ := rightOf_range hi.bounded h
      obtain ⟨h3, h4, -⟩ := rightOf_spec hi h hlt
      rw [maps_singleton, Covers, h1, h2, h3, h4]
    · rename_i h
      have : ¬ s.addrEnd.toNat < i.hi := fun h' => h (UInt64.lt_iff_toNat_lt.2 (by rw [hi.toNat_end]; exact h'))
      constructor
      · rintro ⟨e, he, -⟩
        cases he
      · rintro ⟨⟨h1, h2⟩, -⟩
        omega
  rw [hleft, hright, Covers]
  constructor
  · rintro (⟨h, h'⟩ | ⟨h, h'⟩) <;> exact ⟨by omega, h'⟩
  · rintro ⟨h, h'⟩
    rcases Nat.lt_or_ge x s.addr.toNat with h1 | h1
    · exact .inl ⟨⟨h.1, h1⟩, h'⟩
    · exact .inr ⟨⟨by omega, h.2⟩, h'⟩

/-- Overwriting a mapping of another file, or of another place, that overlaps. -/
theorem ScanInv.overlap {m : Mapping} {p kept rest : List ElfInfo} {s : Scan} {i : ElfInfo}
    (h : ScanInv m p kept (i :: rest) s) (hl : Laid ElfInfo.lo ElfInfo.hi (p ++ i :: rest)) (hi : i.Sound)
    (hlt : i.lo < s.addrEnd.toNat) (hgt : s.addr.toNat < i.hi) :
    ScanInv m (p ++ [i]) kept rest (s.overwrite p.length i) := by
  have hpi : ∀ e ∈ p, e.hi ≤ i.lo := fun e he => (List.pairwise_append.1 hl).2.2 e he i List.mem_cons_self
  have hge := Nat.le_of_lt hgt
  refine
    { h.ranges.overlap hl hi.bounded hlt hgt with
      pgoff_lt := h.pgoff_lt, skew_eq := h.skew_eq, fragSound := ?_, outside := ?_, inside := ?_ }
  · intro f hf
    refine ⟨?_, ((h.ranges.overlap hl hi.bounded hlt hgt).fragBounded f hf).2⟩
    rw [overwrite_newElfs] at hf
    rcases List.mem_append.1 hf with hf | hf
    · exact (h.fragSound f hf).1
    · exact fragments_sound hi hlt hge hf
  · intro x hx q k
    rw [maps_append, h.outside x hx q k, overwrite_newElfs, maps_append, maps_append, maps_append,
      maps_fragments hi hlt hge hx, or_assoc]
  · intro x h1 h2 hn q k
    rw [maps_append, h.inside x h1 h2 hn q k]
    -- a mapping of `p` shows the point, so `i` does not
    obtain ⟨e, he, hce, -⟩ := (h.inside x h1 h2 hn m.originalPath m.skew).2 ⟨rfl, rfl⟩
    have : ¬ Covers ElfInfo.lo ElfInfo.hi i x := fun hc => by
      have := hpi e he
      have := hce.2
      have := hc.1
      omega
    simp [not_maps_singleton this]

/-! ### The whole loop -/

/-- What `registerElf` does with the mappings `l`: nothing, when one of them shows all of the new range already, or
replace some by fragments of them and the new range. -/
inductive Outcome (m : Mapping) (l : List ElfInfo) : Scan × Bool → Prop
  | contained {s : Scan} {i : ElfInfo} (mem : i ∈ l) (lo_le : i.lo ≤ m.lo) (le_hi : m.hi ≤ i.hi)
      (path : i.originalPath = m.originalPath) (skew : i.skew = m.skew)
      (untouched : s.newElfs = [] ∧ s.removedElfs = [] ∧ s.invalidated = []) : Outcome m l (s, true)
  | replaced {s : Scan} {p kept rest : List ElfInfo} (split : l = p ++ rest) (inv : ScanInv m p kept rest s)
      (after : ∀ j ∈ rest, s.addrEnd.toNat ≤ j.lo) : Outcome m l (s, false)

theorem scanInv_preserved {m : Mapping} {l : List ElfInfo} (hwf : WellFormed l) : Preserved m l (ScanInv m) where
  keep := fun _ h hi => h.keep hi
  merge := fun {_ _ i _ _} hsplit h hlt hge hskew hpath _ =>
    h.merge (hsplit ▸ hwf.laid) (hwf.sound i (by rw [hsplit]; simp)) hlt hge hskew hpath
  overlap := fun {_ _ i _ _} hsplit h hlt hgt _ =>
    h.overlap (hsplit ▸ hwf.laid) (hwf.sound i (by rw [hsplit]; simp)) hlt hgt

theorem registerElf_outcome {map : PerfElfMap} {m : Mapping} (hwf : WellFormed map.elfs) (hm : m.KernelLike) :
    Outcome m map.elfs (scan m.originalPath (startScan m) 0 map.elfs) := by
  have hends := scan_ends (p := []) (scanInv_preserved hwf) hwf.ordered rfl (scanInv_start hm map.elfs)
  rw [List.length_nil] at hends
  generalize scan m.originalPath (startScan m) 0 map.elfs = out at hends
  cases hends with
  | @contained p kept rest i s hsplit inv lt ge skew path same =>
    have hmem : i ∈ map.elfs := by rw [hsplit]; simp
    obtain ⟨hlo, hhi, huntouched⟩ := inv.ranges.contained (hwf.sound i hmem).bounded same
    exact .contained hmem hlo hhi path.symm (skew.symm.trans inv.skew_eq) huntouched
  | finished hsplit inv after => exact .replaced hsplit inv after

/-! ## One registration -/

/-- The new range as a mapping: sound, of the registered file in the registered place. -/
theorem elfOf_spec {m : Mapping} (hm : m.KernelLike) {p kept rest : List ElfInfo} {s : Scan}
    (h : ScanInv m p kept rest s) (b : UInt64) :
    let elf : ElfInfo := { elfOf m s with baseAddr := b }
    elf.Sound ∧ elf.originalPath = m.originalPath ∧ elf.skew = m.skew := by
  obtain ⟨hb, -⟩ := h.ranges.elfOf_range hm.bounded b
  have hpath : (elfOf m s).originalPath = m.originalPath := ElfInfo.make_path hm.path
  refine ⟨⟨hb.pos, hb.hi_lt, h.pgoff_lt, ?_⟩, hpath, h.skew_eq⟩
  show (elfOf m s).originalPath ≠ []
  rw [hpath]; exact hm.path

/-- **A registration keeps the mappings in order and disjoint.** -/
theorem registerElf_wellFormed {map : PerfElfMap} {m : Mapping} (hwf : WellFormed map.elfs) (hm : m.KernelLike) :
    WellFormed (map.registerElf m).1.elfs := by
  have ho := registerElf_outcome hwf hm
  generalize hsc : scan m.originalPath (startScan m) 0 map.elfs = out at ho
  cases ho with
  | contained => rw [registerElf_contained hsc]; exact hwf
  | @replaced s p kept rest hsplit inv after =>
    obtain ⟨b, hb, -⟩ := registerElf_elfs hsc
    obtain ⟨hs, -⟩ := elfOf_spec hm inv b
    obtain ⟨-, -, -, hnd⟩ := inv.ranges.elfOf_range hm.bounded b
    have hlaid := (inv.ranges.ordered hm.bounded hwf.ordered hsplit after b).laid
    rw [← hb] at hlaid
    have hmem : ∀ e ∈ (map.registerElf m).1.elfs,
        e ∈ map.elfs ∨ e ∈ s.newElfs ∨ e = { elfOf m s with baseAddr := b } := fun e he => by
      rw [hb, hsplit, inv.removed rest] at he
      rcases (mem_foldl_insertAt _).1 he with he | he
      · rcases List.mem_append.1 he with he | he
        · exact .inr (.inl he)
        · exact .inr (.inr (List.mem_singleton.1 he))
      · rw [hsplit]
        exact .inl ((inv.keptSub.append (List.Sublist.refl _)).subset he)
    refine ⟨hlaid, fun e he => ?_, fun e he => ?_⟩
    · rcases hmem e he with he | he | rfl
      · exact hwf.sound e he
      · exact (inv.fragSound e he).1
      · exact hs
    · rcases hmem e he with he | he | rfl
      · exact hwf.noDwfl e he
      · exact (inv.fragSound e he).2
      · exact hnd

theorem maps_congr {l l' : List ElfInfo} (h : ∀ e, e ∈ l ↔ e ∈ l') {x : Nat} {q : QByteArray} {k : UInt64} :
    Maps l x q k ↔ Maps l' x q k := by simp only [Maps, h]

theorem ScanInv.not_maps {m : Mapping} {p kept rest : List ElfInfo} {s : Scan} (h : ScanInv m p kept rest s) {x : Nat}
    (hx : s.addr.toNat ≤ x ∧ x < s.addrEnd.toNat) (q : QByteArray) (k : UInt64) : ¬Maps (kept ++ s.newElfs) x q k := by
  rintro ⟨e, he, hc, -⟩
  have hlo := hc.1
  have hhi := hc.2
  rcases List.mem_append.1 he with he | he
  · have := h.keptBefore e he
    omega
  · rcases h.fragSide e he with hside | hside <;> omega

/-- **A registration writes its own range and nothing else.** -/
theorem registerElf_maps {map : PerfElfMap} {m : Mapping} (hwf : WellFormed map.elfs) (hm : m.KernelLike) (x : Nat)
    (q : QByteArray) (k : UInt64) : Maps (map.registerElf m).1.elfs x q k ↔
      if m.lo ≤ x ∧ x < m.hi then m.originalPath = q ∧ m.skew = k else Maps map.elfs x q k := by
  have ho := registerElf_outcome hwf hm
  generalize hsc : scan m.originalPath (startScan m) 0 map.elfs = out at ho
  cases ho with
  | @contained s i mem lo_le le_hi path skew =>
    rw [registerElf_contained hsc]
    split
    · rename_i hx
      have hci : Covers ElfInfo.lo ElfInfo.hi i x := ⟨by omega, by omega⟩
      constructor
      · rintro ⟨e, he, hc, rfl, rfl⟩
        obtain rfl := hwf.laid.eq_of_covers ElfInfo.lo ElfInfo.hi hwf.lo_lt_hi he mem hc hci
        exact ⟨path.symm, skew.symm⟩
      · rintro ⟨rfl, rfl⟩
        exact ⟨i, mem, hci, path, skew⟩
    · exact Iff.rfl
  | @replaced s p kept rest hsplit inv after =>
    obtain ⟨b, hb, -⟩ := registerElf_elfs hsc
    obtain ⟨-, hlo, hhi, -⟩ := inv.ranges.elfOf_range hm.bounded b
    obtain ⟨-, hpath, hskew⟩ := elfOf_spec hm inv b
    have hmem : ∀ e, e ∈ (map.registerElf m).1.elfs ↔
        e ∈ (kept ++ s.newElfs) ++ [{ elfOf m s with baseAddr := b }] ++ rest := fun e => by
      rw [hb, hsplit, inv.removed rest]
      refine (mem_foldl_insertAt _).trans ?_
      simp only [List.mem_append]
      tauto
    have helf : Maps [{ elfOf m s with baseAddr := b }] x q k ↔
        (s.addr.toNat ≤ x ∧ x < s.addrEnd.toNat) ∧ m.originalPath = q ∧ m.skew = k := by
      rw [maps_singleton, Covers, hlo, hhi, hpath, hskew]
    have hrest : x < s.addrEnd.toNat → ¬ Maps rest x q k := fun hx ⟨j, hj, hc, _⟩ => by
      have := after j hj
      have := hc.1
      omega
    have h1 := inv.lo_le
    have h2 := inv.le_hi
    have hmap : Maps map.elfs x q k ↔ Maps p x q k ∨ Maps rest x q k := by rw [hsplit, maps_append]
    rw [maps_congr hmem, maps_append, maps_append, helf, hmap]
    by_cases hx : s.addr.toNat ≤ x ∧ x < s.addrEnd.toNat
    · -- inside the range of the scan only the new mapping shows the point
      simp only [inv.not_maps hx q k, hx, hrest hx.2, true_and, false_or, or_false, and_self]
      split
      · exact Iff.rfl
      · rename_i hn
        rw [inv.inside x hx.1 hx.2 hn q k]
    · have hn : ¬ (m.lo ≤ x ∧ x < m.hi) := by omega
      rw [if_neg hn, inv.outside x hx q k]
      simp [hx]

/-! ## Looking an address up -/

/-- A mapping is found at an address from its start on, of its dwfl range if it has one. -/
theorem findElf_of_seek {map : PerfElfMap} {ip : UInt64} {e : ElfInfo}
    (hs : seek ElfInfo.lo ip.toNat map.elfs = some e) : map.findElf ip =
      if e.dwflStart < e.dwflEnd then (if e.dwflStart ≤ ip ∧ ip < e.dwflEnd then e else {})
      else if e.addr + e.length > ip then e else {} := by
  have hs' : seek (fun e : ElfInfo => e.addr.toNat) ip.toNat map.elfs = some e := hs
  unfold findElf
  rw [hs']

/-- What is found is the last mapping that starts at or before the address, which is in its range. -/
theorem seek_of_valid {map : PerfElfMap} {ip : UInt64} (h : (map.findElf ip).isValid = true) :
    seek ElfInfo.lo ip.toNat map.elfs = some (map.findElf ip) ∧
      if (map.findElf ip).dwflStart < (map.findElf ip).dwflEnd then
        (map.findElf ip).dwflStart ≤ ip ∧ ip < (map.findElf ip).dwflEnd
      else (map.findElf ip).addr + (map.findElf ip).length > ip := by
  cases hs : seek ElfInfo.lo ip.toNat map.elfs with
  | none =>
    have hs' : seek (fun e : ElfInfo => e.addr.toNat) ip.toNat map.elfs = none := hs
    unfold findElf at h
    rw [hs'] at h
    exact absurd h ElfInfo.not_isValid_empty
  | some e =>
    have hfind := findElf_of_seek hs
    split at hfind
    · rename_i hrange
      split at hfind
      · rename_i hin
        rw [hfind, if_pos hrange]
        exact ⟨rfl, hin⟩
      · rw [hfind] at h
        exact absurd h ElfInfo.not_isValid_empty
    · rename_i hrange
      split at hfind
      · rename_i hin
        rw [hfind, if_neg hrange]
        exact ⟨rfl, hin⟩
      · rw [hfind] at h
        exact absurd h ElfInfo.not_isValid_empty

theorem findElf_of_covers {map : PerfElfMap} (hwf : WellFormed map.elfs) {e : ElfInfo} (he : e ∈ map.elfs) {ip : UInt64}
    (hc : Covers ElfInfo.lo ElfInfo.hi e ip.toNat) : map.findElf ip = e := by
  have hgt : e.addr + e.length > ip := by
    rw [gt_iff_lt, UInt64.lt_iff_toNat_lt, (hwf.sound e he).toNat_end]
    exact hc.2
  rw [findElf_of_seek (seek_of_covers ElfInfo.lo ElfInfo.hi hwf.laid hwf.lo_lt_hi he hc),
    if_neg (hwf.noDwfl e he), if_pos hgt]

theorem findElf_valid {map : PerfElfMap} (hwf : WellFormed map.elfs) {ip : UInt64} (h : (map.findElf ip).isValid = true) :
    map.findElf ip ∈ map.elfs ∧ Covers ElfInfo.lo ElfInfo.hi (map.findElf ip) ip.toNat := by
  obtain ⟨hs, hin⟩ := seek_of_valid h
  obtain ⟨he, hle⟩ := mem_of_seek _ hs
  rw [if_neg (hwf.noDwfl _ he), gt_iff_lt, UInt64.lt_iff_toNat_lt, (hwf.sound _ he).toNat_end] at hin
  exact ⟨he, hle, hin⟩

/-! ## Whole runs -/

/-- An address space: at each point the file shown there and its skew. -/
abbrev AddressSpace := Nat → Option (QByteArray × UInt64)

/-- The latest mapping wins on its range. -/
def AddressSpace.write (sp : AddressSpace) (m : Mapping) : AddressSpace :=
  fun x => if m.lo ≤ x ∧ x < m.hi then some (m.originalPath, m.skew) else sp x

def Shows (l : List ElfInfo) (sp : AddressSpace) : Prop := ∀ x q k, Maps l x q k ↔ sp x = some (q, k)

/-- **One registration refines one write.** -/
theorem registerElf_shows {map : PerfElfMap} {sp : AddressSpace} {m : Mapping} (hwf : WellFormed map.elfs)
    (hm : m.KernelLike) (h : Shows map.elfs sp) : Shows (map.registerElf m).1.elfs (sp.write m) := by
  intro x q k
  rw [registerElf_maps hwf hm x q k]
  unfold AddressSpace.write
  split
  · simp only [Option.some.injEq, Prod.mk.injEq]
  · exact h x q k

/-- The map after registering `rs` in order on the empty map. -/
def registerAll (rs : List Mapping) : PerfElfMap := rs.foldl (fun map r => (map.registerElf r).1) {}

theorem registerAll_snoc (rs : List Mapping) (r : Mapping) :
    registerAll (rs ++ [r]) = ((registerAll rs).registerElf r).1 := by
  unfold registerAll
  rw [List.foldl_append]
  rfl

theorem registerAll_refines (rs : List Mapping) : (∀ r ∈ rs, r.KernelLike) →
    WellFormed (registerAll rs).elfs ∧ Shows (registerAll rs).elfs (rs.foldl AddressSpace.write (fun _ => none)) := by
  induction rs using List.reverseRecOn with
  | nil => exact fun _ => ⟨WellFormed.nil, fun x q k => by simp [registerAll, Maps]⟩
  | append_singleton rs r ih =>
    intro hk
    obtain ⟨hwf, hs⟩ := ih (fun r' hr' => hk r' (List.mem_append_left _ hr'))
    have hr := hk r (by simp)
    rw [registerAll_snoc, List.foldl_append]
    exact ⟨registerElf_wellFormed hwf hr, registerElf_shows hwf hr hs⟩

end PerfElfMap

/-- The last registration whose range contains `ip`. -/
def lastWriter (rs : List Mapping) (ip : UInt64) : Option Mapping :=
  rs.reverse.find? (fun r => r.addr ≤ ip && ip < r.addr + r.len)

theorem Mapping.KernelLike.contains_iff {r : Mapping} (hr : r.KernelLike) (ip : UInt64) :
    (r.addr ≤ ip && ip < r.addr + r.len) = true ↔ r.lo ≤ ip.toNat ∧ ip.toNat < r.hi := by
  have : (r.addr + r.len).toNat = r.hi := hr.bounded.toNat_end
  rw [Bool.and_eq_true, decide_eq_true_iff, decide_eq_true_iff, UInt64.le_iff_toNat_le, UInt64.lt_iff_toNat_lt, this]
  exact Iff.rfl

/-- The written address space shows what the last writer of a point wrote. -/
theorem foldl_write (rs : List Mapping) : (∀ r ∈ rs, r.KernelLike) → ∀ ip : UInt64,
    rs.foldl PerfElfMap.AddressSpace.write (fun _ => none) ip.toNat =
      (lastWriter rs ip).map (fun r => (r.originalPath, r.skew)) := by
  induction rs using List.reverseRecOn with
  | nil => exact fun _ _ => rfl
  | append_singleton rs r ih =>
    intro hk ip
    have hr := hk r (by simp)
    rw [List.foldl_append, List.foldl_cons, List.foldl_nil]
    unfold lastWriter PerfElfMap.AddressSpace.write
    rw [List.reverse_append, List.reverse_singleton, List.singleton_append, List.find?_cons]
    by_cases hc : r.lo ≤ ip.toNat ∧ ip.toNat < r.hi
    · rw [if_pos hc, (hr.contains_iff ip).2 hc]
      rfl
    · have : (r.addr ≤ ip && ip < r.addr + r.len) = false := by
        rw [← Bool.not_eq_true, hr.contains_iff ip]; exact hc
      rw [if_neg hc, this]
      exact ih (fun r' hr' => hk r' (List.mem_append_left _ hr')) ip

/-- **`PerfElfMap` is a last-writer-wins address space.** -/
theorem registerAll_lastWriter (rs : List Mapping) (hk : ∀ r ∈ rs, r.KernelLike) :
    (∀ ip, ((PerfElfMap.registerAll rs).findElf ip).isValid = true ↔ ∃ r ∈ rs, r.addr ≤ ip ∧ ip < r.addr + r.len) ∧
    (∀ ip r, lastWriter rs ip = some r →
      let elf := (PerfElfMap.registerAll rs).findElf ip
      elf.isValid = true ∧ elf.addr ≤ ip ∧ ip < elf.addr + elf.length ∧ elf.originalPath = r.originalPath ∧
        elf.addr - elf.pgoff = r.addr - r.pgoff) ∧
    (PerfElfMap.registerAll rs).elfs.Pairwise (fun a b => a.addr < b.addr ∧ a.addr + a.length ≤ b.addr) ∧
    (∀ pre r post, rs = pre ++ r :: post → (PerfElfMap.registerAll pre).registerElfAsserts r = true) := by
  obtain ⟨hwf, hs⟩ := PerfElfMap.registerAll_refines rs hk
  have hfind : ∀ ip r, lastWriter rs ip = some r → ∃ e ∈ (PerfElfMap.registerAll rs).elfs,
      Covers ElfInfo.lo ElfInfo.hi e ip.toNat ∧ e.originalPath = r.originalPath ∧ e.skew = r.skew := fun ip r h =>
    (hs ip.toNat r.originalPath r.skew).2 (by rw [foldl_write rs hk, h]; rfl)
  refine ⟨fun ip => ⟨fun hv => ?_, ?_⟩, fun ip r h => ?_, ?_, ?_⟩
  · obtain ⟨hm, hc⟩ := PerfElfMap.findElf_valid hwf hv
    have := (hs ip.toNat _ _).1 ⟨_, hm, hc, rfl, rfl⟩
    rw [foldl_write rs hk, Option.map_eq_some_iff] at this
    obtain ⟨r, hr, -⟩ := this
    refine ⟨r, List.mem_reverse.1 (List.mem_of_find?_eq_some hr), ?_⟩
    have := List.find?_some hr
    simpa using this
  · rintro ⟨r, hr, h1, h2⟩
    have hsome : (lastWriter rs ip).isSome = true := by
      unfold lastWriter
      rw [List.find?_isSome]
      exact ⟨r, List.mem_reverse.2 hr, by simp [h1, h2]⟩
    obtain ⟨r', hr'⟩ := Option.isSome_iff_exists.1 hsome
    obtain ⟨e, he, hc, -⟩ := hfind ip r' hr'
    rw [PerfElfMap.findElf_of_covers hwf he hc]
    exact decide_eq_true (UInt64.lt_iff_toNat_lt.2 (hwf.sound e he).pos)
  · obtain ⟨e, he, hc, hpath, hskew⟩ := hfind ip r h
    simp only
    rw [PerfElfMap.findElf_of_covers hwf he hc]
    refine ⟨decide_eq_true (UInt64.lt_iff_toNat_lt.2 (hwf.sound e he).pos), UInt64.le_iff_toNat_le.2 hc.1, ?_, hpath,
      hskew⟩
    rw [UInt64.lt_iff_toNat_lt, (hwf.sound e he).toNat_end]
    exact hc.2
  · refine hwf.laid.imp_of_mem (fun {a b} ha hb hab => ?_)
    have := (hwf.sound a ha).lo_lt_hi
    have h1 : a.lo = a.addr.toNat := rfl
    have h2 : b.lo = b.addr.toNat := rfl
    rw [UInt64.lt_iff_toNat_lt, UInt64.le_iff_toNat_le, (hwf.sound a ha).toNat_end]
    omega
  · intro pre r post hrs
    have hpre : ∀ r' ∈ pre, r'.KernelLike := fun r' h => hk r' (by rw [hrs]; simp [h])
    have ho := PerfElfMap.registerElf_outcome (PerfElfMap.registerAll_refines pre hpre).1 (hk r (by rw [hrs]; simp))
    unfold PerfElfMap.registerElfAsserts
    generalize PerfElfMap.scan r.originalPath (PerfElfMap.startScan r) 0 (PerfElfMap.registerAll pre).elfs = out at ho
    cases ho with
    | contained _ _ _ _ _ h => simp [h.1, h.2.1]
    | replaced => rfl

/-- A library mapped over the middle of another, whose tail is then mapped once more. -/
def overlappingMappings : List Mapping :=
  [{ addr := 0x1000, len := 0x4000, pgoff := 0, originalPath := [97] },
   { addr := 0x2000, len := 0x1000, pgoff := 0, originalPath := [98] },
   { addr := 0x3800, len := 0x2000, pgoff := 0x2800, originalPath := [97] }]

theorem registerAll_lastWriter_overlapping :
    ((PerfElfMap.registerAll overlappingMappings).findElf 0x2800).originalPath = [98] ∧
      ((PerfElfMap.registerAll overlappingMappings).findElf 0x5700).originalPath = [97] := by
  have h := registerAll_lastWriter overlappingMappings (by
    intro r hr
    fin_cases hr <;> exact ⟨by decide, by decide, by decide, by decide⟩)
  exact ⟨(h.2.1 0x2800 _ rfl).2.2.2.1, (h.2.1 0x5700 _ rfl).2.2.2.1⟩

end PerfParser
