import PerfParser.ElfMapRefine
/-!
# ElfInvalidation — the mappings a registration announces

`registerElf` announces a mapping with `aboutToInvalidate` where its loop marks it as overwritten; it is removed after
the loop, and the fragments and the new range are inserted last.  `AnnounceInv` relates the three along the loop,
`Exchange` at its end.
-/
namespace PerfParser

open Spans

namespace PerfElfMap

/-- `m_elfs` of a registration after it removed the overwritten mappings, before it inserts any. -/
def remaining (map : PerfElfMap) (m : Mapping) : List ElfInfo :=
  match scan m.originalPath (startScan m) 0 map.elfs with
  | (_, true) => map.elfs
  | (s, false) => removeAll map.elfs s.removedElfs

/-! ## The loop -/

/-- What the loop of `registerElf` has announced after the mappings `p`, of which it keeps `kept`. -/
structure AnnounceInv (m : Mapping) (p kept rest : List ElfInfo) (s : Scan) : Prop
    extends RangeInv m p kept rest s where
  divided : p.Perm (kept ++ s.invalidated)
  /-- A fragment is less than the mapping it is of. -/
  part : ∀ f ∈ s.newElfs, ∃ i ∈ s.invalidated, i.lo ≤ f.lo ∧ f.hi ≤ i.hi ∧ (i.lo < f.lo ∨ f.hi < i.hi)
  fragBase : ∀ f ∈ s.newElfs, f.baseAddr = INVALID_BASE_ADDR
  /-- What is announced in all of the new range shows another file, or another part of it. -/
  other : ∀ i ∈ s.invalidated, i.lo = s.addr.toNat → i.hi = s.addrEnd.toNat →
    i.pgoff ≠ s.pgoff ∨ i.originalPath ≠ m.originalPath
  covered : ∀ x, (∃ e ∈ p, Covers ElfInfo.lo ElfInfo.hi e x) →
    (s.addr.toNat ≤ x ∧ x < s.addrEnd.toNat) ∨ ∃ e ∈ kept ++ s.newElfs, Covers ElfInfo.lo ElfInfo.hi e x

theorem announceInv_start {m : Mapping} (hm : m.Bounded) (l : List ElfInfo) : AnnounceInv m [] [] l (startScan m) :=
  { rangeInv_start hm l with
    divided := List.Perm.refl []
    part := by simp [startScan]
    fragBase := by simp [startScan]
    other := by simp [startScan]
    covered := by simp }

theorem AnnounceInv.keep {m : Mapping} {p kept rest : List ElfInfo} {s : Scan} {i : ElfInfo}
    (h : AnnounceInv m p kept (i :: rest) s) (hi : i.hi ≤ s.addr.toNat) :
    AnnounceInv m (p ++ [i]) (kept ++ [i]) rest s :=
  { h.toRangeInv.keep hi with
    divided := by
      have := h.divided.append_right [i]
      rw [List.append_assoc] at this
      rw [List.append_assoc]
      exact this.trans (List.perm_append_comm.append_left kept)
    part := h.part
    fragBase := h.fragBase
    other := h.other
    covered := by
      rintro x ⟨e, he, hc⟩
      rcases List.mem_append.1 he with he | he
      · rcases h.covered x ⟨e, he, hc⟩ with hx | ⟨e', he', hc'⟩
        · exact .inl hx
        · refine .inr ⟨e', ?_, hc'⟩
          rcases List.mem_append.1 he' with he' | he' <;> simp [he']
      · exact .inr ⟨e, by simp [List.mem_singleton.1 he], hc⟩ }

/-- A mapping that ends before another does not end where a range over the other does. -/
theorem AnnounceInv.invalidated_before {m : Mapping} {p kept rest : List ElfInfo} {s : Scan} {i : ElfInfo}
    (h : AnnounceInv m p kept rest s) (hpi : ∀ e ∈ p, e.hi ≤ i.lo) {j : ElfInfo} (hj : j ∈ s.invalidated) :
    j.hi ≤ i.lo := hpi j (h.divided.mem_iff.2 (List.mem_append_right kept hj))

theorem AnnounceInv.divided_snoc {m : Mapping} {p kept rest : List ElfInfo} {s : Scan} {i : ElfInfo}
    (h : AnnounceInv m p kept rest s) : (p ++ [i]).Perm (kept ++ (s.invalidated ++ [i])) := by
  rw [← List.append_assoc]
  exact h.divided.append_right [i]

theorem AnnounceInv.merge {m : Mapping} {p kept rest : List ElfInfo} {s : Scan} {i : ElfInfo}
    (h : AnnounceInv m p kept (i :: rest) s) (hl : Laid ElfInfo.lo ElfInfo.hi (p ++ i :: rest)) (hi : i.Bounded)
    (hlt : i.lo < s.addrEnd.toNat) (hge : s.addr.toNat ≤ i.hi)
    (hmore : ¬ ((s.extend i).addr = i.addr ∧ (s.extend i).len = i.length)) :
    AnnounceInv m (p ++ [i]) kept rest ((s.extend i).overwrite p.length i) := by
  have hpos := hi.lo_lt_hi
  obtain ⟨haddr, hend, hlen⟩ := extend_range hi h.len_eq
  have hfrag := extend_overwrite_newElfs hi h.len_eq p.length
  have hpi : ∀ e ∈ p, e.hi ≤ i.lo := fun e he => (List.pairwise_append.1 hl).2.2 e he i List.mem_cons_self
  refine { h.toRangeInv.merge hl hi hlt with
    divided := h.divided_snoc, part := ?_, fragBase := ?_, other := ?_, covered := ?_ }
  · rw [hfrag]
    intro f hf
    obtain ⟨j, hj, hpart⟩ := h.part f hf
    exact ⟨j, List.mem_append_left [i] hj, hpart⟩
  · rw [hfrag]; exact h.fragBase
  · intro j hj hlo hhi
    have hlo' : j.lo = (s.extend i).addr.toNat := hlo
    have hhi' : j.hi = (s.extend i).addrEnd.toNat := hhi
    rcases List.mem_append.1 hj with hj | hj
    · -- the range ends at or after `i`
      have := h.invalidated_before hpi hj
      omega
    · obtain rfl := List.mem_singleton.1 hj
      refine absurd ⟨UInt64.toNat_inj.1 hlo'.symm, UInt64.toNat_inj.1 ?_⟩ hmore
      have : j.hi = j.lo + j.length.toNat := rfl
      omega
  · rw [hfrag]
    rintro x ⟨e, he, hc⟩
    have hnew : (s.addr.toNat ≤ x ∧ x < s.addrEnd.toNat) ∨ Covers ElfInfo.lo ElfInfo.hi i x →
        (s.extend i).addr.toNat ≤ x ∧ x < (s.extend i).addrEnd.toNat := by
      rintro (hx | ⟨h1, h2⟩) <;> omega
    rcases List.mem_append.1 he with he | he
    · rcases h.covered x ⟨e, he, hc⟩ with hx | hx
      · exact .inl (hnew (.inl hx))
      · exact .inr hx
    · rw [List.mem_singleton.1 he] at hc
      exact .inl (hnew (.inr hc))

/-- A mapping shows a point in the new range or in one of its fragments. -/
theorem fragments_covers {s : Scan} {i : ElfInfo} (hi : i.Bounded) {x : Nat} (hc : Covers ElfInfo.lo ElfInfo.hi i x) :
    (s.addr.toNat ≤ x ∧ x < s.addrEnd.toNat) ∨ ∃ f ∈ fragments s i, Covers ElfInfo.lo ElfInfo.hi f x := by
  have hlo := hc.1
  have hhi := hc.2
  have hdef : i.lo = i.addr.toNat := rfl
  rcases Nat.lt_or_ge x s.addr.toNat with hx | hx
  · have hleft : i.addr < s.addr := UInt64.lt_iff_toNat_lt.2 (by omega)
    obtain ⟨h1, h2, -⟩ := leftOf_range hleft
    exact .inr ⟨leftOf s i, mem_fragments.2 (.inl ⟨hleft, rfl⟩), by omega, by omega⟩
  · rcases Nat.lt_or_ge x s.addrEnd.toNat with hx' | hx'
    · exact .inl ⟨hx, hx'⟩
    · have hright : i.addr + i.length > s.addrEnd := by
        rw [gt_iff_lt, UInt64.lt_iff_toNat_lt, hi.toNat_end]
        omega
      obtain ⟨h1, h2, -⟩ := rightOf_range hi hright
      exact .inr ⟨rightOf s i, mem_fragments.2 (.inr ⟨hright, rfl⟩), by omega, by omega⟩

theorem fragment_baseAddr {s : Scan} {i f : ElfInfo} (hf : f ∈ fragments s i) : f.baseAddr = INVALID_BASE_ADDR := by
  rcases mem_fragments.1 hf with ⟨-, rfl⟩ | ⟨-, rfl⟩ <;> rfl

theorem AnnounceInv.overlap {m : Mapping} {p kept rest : List ElfInfo} {s : Scan} {i : ElfInfo}
    (h : AnnounceInv m p kept (i :: rest) s) (hl : Laid ElfInfo.lo ElfInfo.hi (p ++ i :: rest)) (hi : i.Bounded)
    (hlt : i.lo < s.addrEnd.toNat) (hgt : s.addr.toNat < i.hi)
    (hother : ¬ (s.addr - s.pgoff = i.addr - i.pgoff ∧ m.originalPath = i.originalPath)) :
    AnnounceInv m (p ++ [i]) kept rest (s.overwrite p.length i) := by
  refine { h.toRangeInv.overlap hl hi hlt hgt with
    divided := h.divided_snoc, part := ?_, fragBase := ?_, other := ?_, covered := ?_ }
  · intro f hf
    rw [overwrite_newElfs] at hf
    rcases List.mem_append.1 hf with hf | hf
    · obtain ⟨j, hj, hpart⟩ := h.part f hf
      exact ⟨j, List.mem_append_left [i] hj, hpart⟩
    · refine ⟨i, List.mem_append_right _ (List.mem_singleton_self i), ?_⟩
      rcases mem_fragments.1 hf with ⟨hleft, rfl⟩ | ⟨hright, rfl⟩
      · obtain ⟨h1, h2, -⟩ := leftOf_range hleft
        exact ⟨by omega, by omega, .inr (by omega)⟩
      · obtain ⟨h1, h2, -⟩ := rightOf_range hi hright
        exact ⟨by omega, by omega, .inl (by omega)⟩
  · intro f hf
    rw [overwrite_newElfs] at hf
    rcases List.mem_append.1 hf with hf | hf
    · exact h.fragBase f hf
    · exact fragment_baseAddr hf
  · intro j hj hlo hhi
    rcases List.mem_append.1 hj with hj | hj
    · exact h.other j hj hlo hhi
    · obtain rfl := List.mem_singleton.1 hj
      by_contra hsame
      simp only [ne_eq, not_or, Decidable.not_not] at hsame
      have haddr : s.addr = j.addr := UInt64.toNat_inj.1 hlo.symm
      have hpgoff : s.pgoff = j.pgoff := hsame.1.symm
      exact hother ⟨by rw [haddr, hpgoff], hsame.2.symm⟩
  · rintro x ⟨e, he, hc⟩
    rw [overwrite_newElfs]
    have hor : ((s.addr.toNat ≤ x ∧ x < s.addrEnd.toNat) ∨
        ∃ e ∈ kept ++ s.newElfs, Covers ElfInfo.lo ElfInfo.hi e x) ∨
        ∃ f ∈ fragments s i, Covers ElfInfo.lo ElfInfo.hi f x := by
      rcases List.mem_append.1 he with he | he
      · exact .inl (h.covered x ⟨e, he, hc⟩)
      · rw [List.mem_singleton.1 he] at hc
        rcases fragments_covers (s := s) hi hc with hx | hx
        · exact .inl (.inl hx)
        · exact .inr hx
    rcases hor with (hx | ⟨e', he', hc'⟩) | ⟨f, hf, hc'⟩
    · exact .inl hx
    · exact .inr ⟨e', by rw [← List.append_assoc]; exact List.mem_append_left _ he', hc'⟩
    · exact .inr ⟨f, List.mem_append_right _ (List.mem_append_right _ hf), hc'⟩

theorem announceInv_preserved {m : Mapping} {l : List ElfInfo} (hl : Ordered l) : Preserved m l (AnnounceInv m) where
  keep := fun _ h hi => h.keep hi
  merge := fun {_ _ i _ _} hsplit h hlt hge _ _ hmore =>
    h.merge (hsplit ▸ hl.laid) (hl.bounded i (by rw [hsplit]; simp)) hlt hge hmore
  overlap := fun {_ _ i _ _} hsplit h hlt hgt hother =>
    h.overlap (hsplit ▸ hl.laid) (hl.bounded i (by rw [hsplit]; simp)) hlt hgt hother

/-! ## One registration -/

/-- What a registration does to the mappings `before`: some stay, the others are announced, and new ones are created. -/
structure Exchange (m : Mapping) (before stay announced created after : List ElfInfo) : Prop where
  ordered : Ordered after
  stayed : stay.Sublist before
  divided : before.Perm (stay ++ announced)
  joined : after.Perm (stay ++ created)
  bare : ∀ e ∈ created, ¬ e.dwflStart < e.dwflEnd ∧ (e.baseAddr = INVALID_BASE_ADDR ∨ e.baseAddr < e.addr)
  /-- Only a file that is registered without a path is found again after it was announced. -/
  other : ∀ e ∈ created, e ∈ announced → m.originalPath = [] ∧ m.fullPath.absoluteFilePath ≠ []
  covered : ∀ x, (∃ e ∈ before, Covers ElfInfo.lo ElfInfo.hi e x) → ∃ e ∈ after, Covers ElfInfo.lo ElfInfo.hi e x

theorem registerElf_invalidated {map : PerfElfMap} {m : Mapping} {s : Scan} {b : Bool}
    (h : scan m.originalPath (startScan m) 0 map.elfs = (s, b)) : (map.registerElf m).2 = s.invalidated := by
  unfold registerElf
  rw [h]
  cases b <;> rfl

/-- The name of the mapping that a registration creates is the one it is given, unless that is empty. -/
theorem elfOf_path {m : Mapping} (s : Scan) (h : ¬ (m.originalPath = [] ∧ m.fullPath.absoluteFilePath ≠ [])) :
    (elfOf m s).originalPath = m.originalPath := by
  rw [elfOf, ElfInfo.make]
  cases hq : m.originalPath with
  | nil => simpa [hq] using h
  | cons b q => rfl

/-- Elements of an ordered list in the same place are the same. -/
theorem Ordered.eq_of_within {l : List ElfInfo} (hl : Ordered l) {a b f : ElfInfo} (ha : a ∈ l) (hb : b ∈ l)
    (hf : f.Bounded) (haf : a.lo ≤ f.lo ∧ f.hi ≤ a.hi) (hbf : b.lo ≤ f.lo ∧ f.hi ≤ b.hi) : a = b := by
  have hpos := hf.lo_lt_hi
  exact hl.laid.eq_of_covers ElfInfo.lo ElfInfo.hi hl.lo_lt_hi ha hb (x := f.lo) ⟨haf.1, by omega⟩ ⟨hbf.1, by omega⟩

theorem Ordered.nodup {l : List ElfInfo} (hl : Ordered l) : l.Nodup :=
  hl.laid.imp_of_mem (fun {a b} ha _ hab h => by
    have := (hl.bounded a ha).lo_lt_hi
    rw [← h] at hab
    omega)

/-- The mappings that the loop creates: the fragments and the new range. -/
def created (m : Mapping) (s : Scan) (b : UInt64) : List ElfInfo := s.newElfs ++ [{ elfOf m s with baseAddr := b }]

theorem AnnounceInv.created_other {m : Mapping} (hm : m.Bounded) {l p kept rest : List ElfInfo} {s : Scan}
    (inv : AnnounceInv m p kept rest s) (hl : Ordered l) (hstored : ∀ i ∈ s.invalidated, i ∈ l) {b : UInt64}
    {e : ElfInfo} (he : e ∈ created m s b) (hannounced : e ∈ s.invalidated) :
    m.originalPath = [] ∧ m.fullPath.absoluteFilePath ≠ [] := by
  obtain ⟨-, hlo, hhi, -⟩ := inv.elfOf_range hm b
  rcases List.mem_append.1 he with he | he
  · -- a fragment is less than the one mapping that it lies in
    obtain ⟨i, hi, h1, h2, hless⟩ := inv.part e he
    have := hl.eq_of_within (hstored i hi) (hstored e hannounced) (inv.fragBounded e he).1 ⟨h1, h2⟩
      ⟨Nat.le_refl _, Nat.le_refl _⟩
    rw [this] at hless
    omega
  · obtain rfl := List.mem_singleton.1 he
    by_contra hnamed
    rcases inv.other _ hannounced hlo hhi with h | h
    · exact h rfl
    · exact h (elfOf_path s hnamed)

theorem AnnounceInv.created_covers {m : Mapping} (hm : m.Bounded) {p kept rest : List ElfInfo} {s : Scan}
    (inv : AnnounceInv m p kept rest s) (b : UInt64) {x : Nat}
    (h : ∃ e ∈ p ++ rest, Covers ElfInfo.lo ElfInfo.hi e x) :
    ∃ e ∈ kept ++ rest ++ created m s b, Covers ElfInfo.lo ElfInfo.hi e x := by
  obtain ⟨-, hlo, hhi, -⟩ := inv.elfOf_range hm b
  obtain ⟨e, he, hc⟩ := h
  rcases List.mem_append.1 he with he | he
  · rcases inv.covered x ⟨e, he, hc⟩ with hx | ⟨e', he', hc'⟩
    · refine ⟨{ elfOf m s with baseAddr := b }, by simp [created], ?_⟩
      rw [Covers, hlo, hhi]
      exact hx
    · refine ⟨e', ?_, hc'⟩
      rcases List.mem_append.1 he' with he' | he' <;> simp [created, he']
  · exact ⟨e, by simp [he], hc⟩

theorem AnnounceInv.exchange {m : Mapping} (hm : m.Bounded) {l p kept rest : List ElfInfo} {s : Scan}
    (inv : AnnounceInv m p kept rest s) (hl : Ordered l) (hsplit : l = p ++ rest)
    (after : ∀ j ∈ rest, s.addrEnd.toNat ≤ j.lo) {b : UInt64} (hbase : b = INVALID_BASE_ADDR ∨ b < s.addr) :
    Exchange m l (kept ++ rest) s.invalidated (created m s b)
      ((created m s b).foldl insertElf (removeAll l s.removedElfs)) := by
  have hremoved : removeAll l s.removedElfs = kept ++ rest := by rw [hsplit]; exact inv.removed rest
  have hjoined : ((created m s b).foldl insertElf (removeAll l s.removedElfs)).Perm (kept ++ rest ++ created m s b) := by
    rw [hremoved]
    exact foldl_insertAt_perm _
  have hdivided : l.Perm (kept ++ rest ++ s.invalidated) := by
    rw [hsplit, List.append_assoc]
    refine (inv.divided.append_right rest).trans ?_
    rw [List.append_assoc]
    exact List.perm_append_comm.append_left kept
  constructor
  case ordered => exact inv.toRangeInv.ordered hm hl hsplit after b
  case stayed =>
    rw [hsplit]
    exact inv.keptSub.append (List.Sublist.refl rest)
  case divided => exact hdivided
  case joined => exact hjoined
  case bare =>
    intro e he
    rcases List.mem_append.1 he with he | he
    · exact ⟨(inv.fragBounded e he).2, .inl (inv.fragBase e he)⟩
    · rw [List.mem_singleton.1 he]
      exact ⟨(inv.elfOf_range hm b).2.2.2, hbase⟩
  case other =>
    exact fun e he => inv.created_other hm hl (fun i hi => hdivided.mem_iff.2 (List.mem_append_right _ hi)) he
  case covered =>
    intro x hx
    rw [hsplit] at hx
    obtain ⟨e, he, hc⟩ := inv.created_covers hm b hx
    exact ⟨e, hjoined.mem_iff.2 he, hc⟩

theorem registerElf_exchange {map : PerfElfMap} {m : Mapping} (hl : Ordered map.elfs) (hm : m.Bounded) :
    ∃ new, Exchange m map.elfs (map.remaining m) (map.registerElf m).2 new (map.registerElf m).1.elfs := by
  have hends := scan_ends (p := []) (announceInv_preserved hl) hl rfl (announceInv_start hm map.elfs)
  rw [List.length_nil] at hends
  generalize hsc : scan m.originalPath (startScan m) 0 map.elfs = out at hends
  cases hends with
  | @contained p kept rest i s hsplit inv lt ge skew path same =>
    obtain ⟨-, -, -, -, hnone⟩ := inv.toRangeInv.contained (hl.bounded i (by rw [hsplit]; simp)) same
    have hremaining : map.remaining m = map.elfs := by rw [remaining, hsc]
    rw [registerElf_contained hsc, registerElf_invalidated hsc, hremaining]
    refine ⟨[], hl, List.Sublist.refl _, ?_, ?_, by simp, by simp, fun x h => h⟩
    · rw [show (s.extend i).invalidated = [] from hnone, List.append_nil]
    · rw [List.append_nil]
  | @finished p kept rest s hsplit inv after =>
    obtain ⟨b, hb, hbase⟩ := registerElf_elfs hsc
    have hremaining : map.remaining m = kept ++ rest := by
      have hremoved := inv.removed rest
      rw [← hsplit] at hremoved
      rw [remaining, hsc]
      exact hremoved
    rw [hb, registerElf_invalidated hsc, hremaining]
    exact ⟨created m s b, inv.exchange hm hl hsplit after hbase⟩

/-! ## Whole runs -/

theorem registerAll_ordered (rs : List Mapping) : (∀ r ∈ rs, r.Bounded) → Ordered (registerAll rs).elfs := by
  induction rs using List.reverseRecOn with
  | nil => exact fun _ => Ordered.nil
  | append_singleton rs r ih =>
    intro hrs
    obtain ⟨new, h⟩ := registerElf_exchange (ih (fun r' hr' => hrs r' (List.mem_append_left _ hr')))
      (hrs r (by simp))
    rw [registerAll_snoc]
    exact h.ordered

/-- **Invalidation is complete and exact.**  A stored mapping is announced once or it stays; it is announced once if it
is not among the mappings afterwards; and it is announced and yet among them only where the same range of a file was
registered again without a path. -/
theorem registerElf_announces (rs : List Mapping) (m : Mapping) (hrs : ∀ r ∈ rs, r.Bounded) (hm : m.Bounded) :
    let map := registerAll rs
    let after := (map.registerElf m).1.elfs
    let announced := (map.registerElf m).2
    (∀ e ∈ map.elfs, e ∉ after → announced.count e = 1) ∧
    (∀ e ∈ map.remaining m, e ∈ map.elfs ∧ e ∈ after ∧ e ∉ announced) ∧
    (∀ e ∈ announced, e ∈ map.elfs ∧ e ∉ map.remaining m ∧ announced.count e = 1) ∧
    ∀ e ∈ after, e ∈ announced → m.originalPath = [] ∧ m.fullPath.absoluteFilePath ≠ [] := by
  intro map after announced
  have hl : Ordered map.elfs := registerAll_ordered rs hrs
  obtain ⟨new, h⟩ := registerElf_exchange hl hm
  have hnodup : (map.remaining m ++ announced).Nodup := h.divided.nodup_iff.1 hl.nodup
  obtain ⟨-, honce, hdisjoint⟩ := List.nodup_append.1 hnodup
  have hcount : ∀ e ∈ announced, announced.count e = 1 := fun e he => List.count_eq_one_of_mem honce he
  refine ⟨fun e he hgone => ?_, fun e he => ⟨h.stayed.subset he, ?_, ?_⟩, fun e he => ⟨?_, ?_, hcount e he⟩,
    fun e he hannounced => ?_⟩
  · rcases List.mem_append.1 (h.divided.mem_iff.1 he) with hstay | hannounced
    · exact absurd (h.joined.mem_iff.2 (List.mem_append_left _ hstay)) hgone
    · exact hcount e hannounced
  · exact h.joined.mem_iff.2 (List.mem_append_left _ he)
  · exact fun hannounced => hdisjoint e he e hannounced rfl
  · exact h.divided.mem_iff.2 (List.mem_append_right _ he)
  · exact fun hstay => hdisjoint e hstay e he rfl
  · rcases List.mem_append.1 (h.joined.mem_iff.1 he) with hstay | hcreated
    · exact absurd rfl (hdisjoint e hstay e hannounced)
    · exact h.other e hcreated hannounced

/-- Another file that is mapped into the middle of a library. -/
theorem registerElf_announces_inner :
    let library : Mapping := { addr := 0x1000, len := 0x4000, pgoff := 0, originalPath := [97] }
    let inner : Mapping := { addr := 0x2000, len := 0x1000, pgoff := 0, originalPath := [98] }
    ((registerAll [library]).registerElf inner).2.count ((registerAll [library]).findElf 0x1800) = 1 := by
  intro library inner
  have hrs : ∀ r ∈ [library], r.Bounded := fun r hr => by
    rw [List.mem_singleton.1 hr]
    exact ⟨by decide, by decide⟩
  exact (registerElf_announces [library] inner hrs ⟨by decide, by decide⟩).1 _ (by decide) (by decide)

/-- The same range of a file registered twice without its path: the stored mapping has the path of the local file, the
argument has none, so the mapping is announced, removed and created again. -/
theorem registerElf_announces_again :
    ¬ ∀ (rs : List Mapping) (m : Mapping), (∀ r ∈ rs, r.Bounded) → m.Bounded →
      let map := registerAll rs
      ∀ e ∈ map.elfs, (map.registerElf m).2.count e = if e ∈ (map.registerElf m).1.elfs then 0 else 1 := by
  intro h
  let library : Mapping := { addr := 0x1000, len := 0x1000, pgoff := 0, fullPath := ⟨[97], [47, 97], true⟩ }
  have hbounded : library.Bounded := ⟨by decide, by decide⟩
  have hannounced := h [library] library (fun r hr => List.mem_singleton.1 hr ▸ hbounded) hbounded
    ((registerAll [library]).findElf 0x1000) (by decide)
  exact absurd hannounced (by decide)

end PerfElfMap

end PerfParser
