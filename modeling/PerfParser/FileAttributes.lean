import PerfParser.ListBounds
import PerfParser.FeatureSections
/-!
# FileAttributes — the attributes of a file (`PerfAttributes::read`)

A file has a table of attributes, each with a place where its ids are.  All of them are read into the same variable, which
keeps what an attribute is too small to have from the ones before it.  So they are read one by one as if each was alone
where none is smaller than one before it (`attributesOf_read`).
-/
namespace PerfParser

open QDataStream Reader

namespace PerfHeader

def numAttrs (h : PerfHeader) : Int64 := if h.attrs.size > 0 then h.attrs.size / h.attrSize else 0

/-- Where an attribute of the table is. -/
def attrOffset (h : PerfHeader) (i : Nat) : Int64 := h.attrs.offset + h.attrSize * .ofNat i

end PerfHeader

/-! ## One attribute -/

namespace PerfEventAttributes

/-- The fields that an attribute of the size does not have are those of a new one. -/
structure Within (size : UInt32) (a : PerfEventAttributes) : Prop where
  bpLen : size ≤ SIZE_VER0 → a.bpLen = 0
  branchSampleType : size ≤ SIZE_VER1 → a.branchSampleType = 0
  sampleRegsUser : size ≤ SIZE_VER2 → a.sampleRegsUser = 0
  sampleStackUser : size ≤ SIZE_VER2 → a.sampleStackUser = 0
  clockid : size ≤ SIZE_VER2 → a.clockid = 0
  sampleRegsIntr : size ≤ SIZE_VER3 → a.sampleRegsIntr = 0
  auxWatermark : size ≤ SIZE_VER4 → a.auxWatermark = 0
  sampleMaxStack : size ≤ SIZE_VER4 → a.sampleMaxStack = 0
  reserved2 : size ≤ SIZE_VER4 → a.reserved2 = 0

theorem Within.mono {size size' : UInt32} {a : PerfEventAttributes} (h : a.Within size) (hle : size ≤ size') :
    a.Within size' where
  bpLen h' := h.bpLen (Std.le_trans hle h')
  branchSampleType h' := h.branchSampleType (Std.le_trans hle h')
  sampleRegsUser h' := h.sampleRegsUser (Std.le_trans hle h')
  sampleStackUser h' := h.sampleStackUser (Std.le_trans hle h')
  clockid h' := h.clockid (Std.le_trans hle h')
  sampleRegsIntr h' := h.sampleRegsIntr (Std.le_trans hle h')
  auxWatermark h' := h.auxWatermark (Std.le_trans hle h')
  sampleMaxStack h' := h.sampleMaxStack (Std.le_trans hle h')
  reserved2 h' := h.reserved2 (Std.le_trans hle h')

theorem within_default (size : UInt32) : ({} : PerfEventAttributes).Within size := by
  constructor <;> exact fun _ => rfl

/-- An attribute with the fields of `b` from a version on that a size does not have. -/
def keep (size : UInt32) (a b : PerfEventAttributes) : PerfEventAttributes :=
  { a with
    bpLen := bif size > SIZE_VER0 then a.bpLen else b.bpLen
    branchSampleType := bif size > SIZE_VER1 then a.branchSampleType else b.branchSampleType
    sampleRegsUser := bif size > SIZE_VER2 then a.sampleRegsUser else b.sampleRegsUser
    sampleStackUser := bif size > SIZE_VER2 then a.sampleStackUser else b.sampleStackUser
    clockid := bif size > SIZE_VER2 then a.clockid else b.clockid
    sampleRegsIntr := bif size > SIZE_VER3 then a.sampleRegsIntr else b.sampleRegsIntr
    auxWatermark := bif size > SIZE_VER4 then a.auxWatermark else b.auxWatermark
    sampleMaxStack := bif size > SIZE_VER4 then a.sampleMaxStack else b.sampleMaxStack
    reserved2 := bif size > SIZE_VER4 then a.reserved2 else b.reserved2 }

variable (bigEndian : Bool)

/-- **What is read over an attribute** is what is read over a new one, save for the fields that it keeps. -/
theorem run_read_keep (a : PerfEventAttributes) (s : QByteArray) (h : ¬u32At bigEndian s 4 < SIZE_VER0) :
    ((a.read bigEndian).run s).1 = (((({} : PerfEventAttributes).read bigEndian).run s).1).keep (u32At bigEndian s 4) a := by
  have hsize : ((u32 bigEndian).run ((u32 bigEndian).run s).2).1 = u32At bigEndian s 4 := by
    rw [(takes_u32 bigEndian).run_snd, u32At]
  simp only [read, run_bind, hsize, if_neg h, keep]
  generalize decide (u32At bigEndian s 4 > SIZE_VER0) = p₀
  generalize decide (u32At bigEndian s 4 > SIZE_VER1) = p₁
  generalize decide (u32At bigEndian s 4 > SIZE_VER2) = p₂
  generalize decide (u32At bigEndian s 4 > SIZE_VER3) = p₃
  generalize decide (u32At bigEndian s 4 > SIZE_VER4) = p₄
  generalize decide (u32At bigEndian s 4 > SIZE_VER5) = p₅
  cases p₀ <;> cases p₁ <;> cases p₂ <;> cases p₃ <;> cases p₄ <;> cases p₅ <;> rfl

variable {bigEndian} {α : Type} {size version : UInt32}

theorem cond_of_le (h : size ≤ version) (x y : α) : (bif size > version then x else y) = y := by
  rw [decide_eq_false (UInt32.not_lt.2 h), cond_false]

theorem cond_congr_of_le {y z : α} (h : size ≤ version → y = z) (x : α) :
    (bif size > version then x else y) = bif size > version then x else z := by
  by_cases hle : size ≤ version
  · rw [h hle]
  · rw [decide_eq_true (UInt32.not_le.1 hle), cond_true, cond_true]

/-- What is read over fields that are not there anyway is read as if alone. -/
theorem Within.run_read {a : PerfEventAttributes} {s : QByteArray} (h : a.Within (u32At bigEndian s 4))
    (hsize : ¬u32At bigEndian s 4 < SIZE_VER0) :
    ((a.read bigEndian).run s).1 = ((({} : PerfEventAttributes).read bigEndian).run s).1 := by
  refine (run_read_keep bigEndian a s hsize).trans (Eq.trans ?_ (run_read_keep bigEndian {} s hsize).symm)
  unfold keep
  rw [cond_congr_of_le h.bpLen, cond_congr_of_le h.branchSampleType, cond_congr_of_le h.sampleRegsUser,
    cond_congr_of_le h.sampleStackUser, cond_congr_of_le h.clockid, cond_congr_of_le h.sampleRegsIntr,
    cond_congr_of_le h.auxWatermark, cond_congr_of_le h.sampleMaxStack, cond_congr_of_le h.reserved2]

/-- An attribute that was read has no more fields than its size says. -/
theorem within_run_read {s : QByteArray} (hsize : ¬u32At bigEndian s 4 < SIZE_VER0) :
    ((({} : PerfEventAttributes).read bigEndian).run s).1.Within (u32At bigEndian s 4) := by
  rw [run_read_keep bigEndian {} s hsize]
  constructor <;> exact fun h => cond_of_le h _ _

end PerfEventAttributes

/-! ## The table -/

namespace PerfAttributes

open PerfEventAttributes (SIZE_VER0)

/-- The loop over the ids of an attribute. -/
def readIds (bigEndian : Bool) (attrs : PerfEventAttributes) : Nat → PerfAttributes → Reader UInt8 PerfAttributes
  | 0, a => pure a
  | n + 1, a => do
    let id ← u64 bigEndian
    readIds bigEndian attrs n (a.addAttributes id attrs)

/-- The loop of `read` from attribute `i` on, with `n` attributes to go and the variable it reads them into. -/
def readTable (h : PerfHeader) (f : QFile) :
    Nat → Nat → PerfEventAttributes → PerfAttributes → Bool × PerfAttributes × QFile
  | 0, _, _, a => (true, a, f)
  | n + 1, i, attrs, a =>
    match f.seek (h.attrOffset i).toInt with
    | none => (false, a, f)
    | some f =>
      let read := (attrs.read h.bigEndian).run f.unread
      let attrs := read.1
      if attrs.size < SIZE_VER0 then (false, a, f.readUpTo read.2)
      else
        let a := if i = 0 then a.setGlobalAttributes attrs else a
        let ids := (PerfFileSection.read h.bigEndian).run read.2
        let f := f.readUpTo ids.2
        if ids.1.size > 0 then
          match f.seek ids.1.offset.toInt with
          | none => (false, a, f)
          | some f =>
            let found := (readIds h.bigEndian attrs (ids.1.size / 8).toInt.toNat a).run f.unread
            readTable h (f.readUpTo found.2) n (i + 1) attrs found.1
        else readTable h f n (i + 1) attrs a

/-- `PerfAttributes::read`, with what it returns. -/
def read (h : PerfHeader) (f : QFile) (a : PerfAttributes) : Bool × PerfAttributes × QFile :=
  if h.attrSize.toInt < SIZE_VER0.toNat + 16 then (false, a, f) else readTable h f h.numAttrs.toInt.toNat 0 {} a

/-! What the table has at a place, each attribute read alone. -/

/-- The attribute at a place of the table, and what is behind it. -/
def attrsAt (h : PerfHeader) (bytes : QByteArray) (i : Nat) : PerfEventAttributes × QByteArray :=
  (({} : PerfEventAttributes).read h.bigEndian).run (bytes.drop (h.attrOffset i).toInt.toNat)

def idSection (h : PerfHeader) (bytes : QByteArray) (i : Nat) : PerfFileSection :=
  ((PerfFileSection.read h.bigEndian).run (attrsAt h bytes i).2).1

def idsAt (h : PerfHeader) (bytes : QByteArray) (i : Nat) : List UInt64 :=
  if (idSection h bytes i).size > 0 then
    (((u64 h.bigEndian).times ((idSection h bytes i).size / 8).toInt.toNat).run
      (bytes.drop (idSection h bytes i).offset.toInt.toNat)).1
  else []

/-- The attribute that an id belongs to: the last one that lists it. -/
def owner? (h : PerfHeader) (bytes : QByteArray) (id : UInt64) (indices : List Nat) : Option Nat :=
  indices.reverse.find? fun i => id ∈ idsAt h bytes i

/-- The `m_size` of an attribute. -/
def sizeAt (h : PerfHeader) (bytes : QByteArray) (i : Nat) : UInt32 :=
  u32At h.bigEndian (bytes.drop (h.attrOffset i).toInt.toNat) 4

/-! ## Attributes by id -/

theorem readIds_find (bigEndian : Bool) (attrs : PerfEventAttributes) (id : UInt64) :
    ∀ (n : Nat) (a : PerfAttributes) (s : QByteArray),
      (((readIds bigEndian attrs n a).run s).1.attributes.find id =
        if id ∈ (((u64 bigEndian).times n).run s).1 then some attrs else a.attributes.find id) ∧
      ((readIds bigEndian attrs n a).run s).1.globalAttributes = a.globalAttributes
  | 0, _, _ => ⟨rfl, rfl⟩
  | n + 1, a, s => by
    obtain ⟨hfind, hglobal⟩ := readIds_find bigEndian attrs id n (a.addAttributes ((u64 bigEndian).run s).1 attrs)
      ((u64 bigEndian).run s).2
    refine ⟨?_, ?_⟩
    · rw [readIds, run_bind, hfind, times, run_bind, run_bind, run_pure, addAttributes, QHash.find_insert]
      simp only [List.mem_cons]
      by_cases hid : id ∈ (((u64 bigEndian).times n).run ((u64 bigEndian).run s).2).1
      · rw [if_pos hid, if_pos (.inr hid)]
      · rw [if_neg hid]
        exact if_congr (or_iff_left hid).symm rfl rfl
    · rw [readIds, run_bind]
      exact hglobal

section Table

variable {h : PerfHeader} {f : QFile} {n i : Nat} {attrs : PerfEventAttributes} {a : PerfAttributes}

/-- What a seek that does not fail leaves to be read. -/
theorem seek_unread {pos : Int} {f' : QFile} (hseek : f.seek pos = some f') :
    f'.bytes = f.bytes ∧ f'.unread = f.bytes.drop pos.toNat := by
  unfold QFile.seek at hseek
  split at hseek
  · cases hseek
  · cases hseek
    exact ⟨rfl, rfl⟩

/-- What is read at a place of the table over an attribute that has nothing more. -/
theorem run_read_attrsAt (hattrs : attrs.Within (sizeAt h f.bytes i)) (hsize : ¬sizeAt h f.bytes i < SIZE_VER0) :
    (attrs.read h.bigEndian).run (f.bytes.drop (h.attrOffset i).toInt.toNat) = attrsAt h f.bytes i := by
  refine Prod.ext (hattrs.run_read hsize) ?_
  rw [attrsAt, PerfEventAttributes.run_read_snd, PerfEventAttributes.run_read_snd]

/-- One turn of the loop, where it goes on: the attribute is read as if alone. -/
theorem readTable_succ (hread : (readTable h f (n + 1) i attrs a).1 = true)
    (hattrs : attrs.Within (sizeAt h f.bytes i)) : ¬sizeAt h f.bytes i < SIZE_VER0 ∧ ∃ f' a', f'.bytes = f.bytes ∧
      readTable h f (n + 1) i attrs a = readTable h f' n (i + 1) (attrsAt h f.bytes i).1 a' ∧
      (∀ id, a'.attributes.find id =
        if id ∈ idsAt h f.bytes i then some (attrsAt h f.bytes i).1 else a.attributes.find id) ∧
      a'.globalAttributes = if i = 0 then (attrsAt h f.bytes i).1 else a.globalAttributes := by
  rw [readTable] at hread ⊢
  cases hseek : f.seek (h.attrOffset i).toInt with
  | none =>
    rw [hseek] at hread
    cases hread
  | some f' =>
    obtain ⟨hbytes, hunread⟩ := seek_unread hseek
    rw [hseek] at hread
    dsimp only at hread ⊢
    rw [hunread, PerfEventAttributes.run_read_size] at hread ⊢
    by_cases hsize : sizeAt h f.bytes i < SIZE_VER0
    · rw [show u32At h.bigEndian (f.bytes.drop (h.attrOffset i).toInt.toNat) 4 = sizeAt h f.bytes i from rfl,
        if_pos hsize] at hread
      cases hread
    · rw [show u32At h.bigEndian (f.bytes.drop (h.attrOffset i).toInt.toNat) 4 = sizeAt h f.bytes i from rfl,
        if_neg hsize, run_read_attrsAt hattrs hsize] at hread ⊢
      refine ⟨hsize, ?_⟩
      have hsection := idSection.eq_1 h f.bytes i
      generalize (PerfFileSection.read h.bigEndian).run (attrsAt h f.bytes i).2 = ids at hread hsection ⊢
      obtain ⟨ids, unread⟩ := ids
      obtain rfl : idSection h f.bytes i = ids := hsection
      dsimp only at hread ⊢
      have hglobal : (if i = 0 then a.setGlobalAttributes (attrsAt h f.bytes i).1 else a).globalAttributes =
          if i = 0 then (attrsAt h f.bytes i).1 else a.globalAttributes := apply_ite _ _ _ _
      have hids : (if i = 0 then a.setGlobalAttributes (attrsAt h f.bytes i).1 else a).attributes = a.attributes := by
        split <;> rfl
      unfold idsAt
      by_cases hpositive : (idSection h f.bytes i).size > 0
      · rw [if_pos hpositive] at hread ⊢
        cases hseek' : (f'.readUpTo unread).seek (idSection h f.bytes i).offset.toInt with
        | none =>
          rw [hseek'] at hread
          cases hread
        | some f'' =>
          obtain ⟨hbytes', hunread'⟩ := seek_unread hseek'
          have hfind := readIds_find h.bigEndian (attrsAt h f.bytes i).1
          refine ⟨f''.readUpTo _, _, hbytes'.trans hbytes, rfl, fun id => ?_, ?_⟩
          · rw [(hfind id _ _ _).1, hids, hunread', show (f'.readUpTo unread).bytes = f.bytes from hbytes,
              if_pos hpositive]
          · rw [(hfind 0 _ _ _).2, hglobal]
      · rw [if_neg hpositive] at hread ⊢
        refine ⟨f'.readUpTo unread, _, hbytes, rfl, fun id => ?_, hglobal⟩
        rw [hids, if_neg hpositive, if_neg List.not_mem_nil]

/-- What the loop makes of the attributes from `i` on, where none is smaller than one before it. -/
theorem readTable_find : ∀ (n i : Nat) {f : QFile} {attrs : PerfEventAttributes} {a : PerfAttributes},
    (readTable h f n i attrs a).1 = true → (0 < n → attrs.Within (sizeAt h f.bytes i)) →
    (∀ j k, i ≤ j → j ≤ k → k < i + n → sizeAt h f.bytes j ≤ sizeAt h f.bytes k) →
    (∀ id, (readTable h f n i attrs a).2.1.attributes.find id =
      ((owner? h f.bytes id (List.range' i n)).map fun j => (attrsAt h f.bytes j).1).or (a.attributes.find id)) ∧
    (readTable h f n i attrs a).2.1.globalAttributes =
      if i = 0 ∧ 0 < n then (attrsAt h f.bytes 0).1 else a.globalAttributes
  | 0, i, _, _, _, _, _, _ => ⟨fun _ => rfl, (if_neg fun h => Nat.lt_irrefl 0 h.2).symm⟩
  | n + 1, i, f, attrs, a, hread, hattrs, hsizes => by
    obtain ⟨hsize, f', a', hbytes, hstep, hfind, hglobal⟩ := readTable_succ hread (hattrs (Nat.succ_pos n))
    rw [hstep] at hread ⊢
    have hwithin : 0 < n → (attrsAt h f.bytes i).1.Within (sizeAt h f'.bytes (i + 1)) := fun hn => by
      rw [hbytes]
      exact (PerfEventAttributes.within_run_read hsize).mono (hsizes i (i + 1) (Nat.le_refl i) (Nat.le_succ i) (by omega))
    obtain ⟨hrest, hrestGlobal⟩ := readTable_find n (i + 1) hread hwithin (by
      rw [hbytes]
      exact fun j k hij hjk hk => hsizes j k (by omega) hjk (by omega))
    rw [hbytes] at hrest hrestGlobal
    refine ⟨fun id => ?_, ?_⟩
    · rw [hrest, hfind, List.range'_succ, owner?, owner?, List.reverse_cons, List.find?_append, List.find?_singleton]
      generalize (List.range' (i + 1) n).reverse.find? (fun i => id ∈ idsAt h f.bytes i) = later
      generalize hattr : (attrsAt h f.bytes i).1 = attr
      cases later with
      | some j => rw [Option.some_or, Option.map_some, Option.some_or, Option.some_or]
      | none =>
        rw [Option.map_none, Option.none_or, Option.none_or]
        by_cases hid : id ∈ idsAt h f.bytes i
        · rw [if_pos hid, if_pos (decide_eq_true hid), Option.map_some, hattr, Option.some_or]
        · rw [if_neg hid, if_neg (by simpa using hid), Option.map_none, Option.none_or]
    · rw [hrestGlobal, if_neg (by omega), hglobal]
      by_cases hi : i = 0
      · rw [if_pos hi, if_pos ⟨hi, Nat.succ_pos n⟩, hi]
      · rw [if_neg hi, if_neg fun h => hi h.1]

end Table

/-- **The attributes of a file by id**: an id belongs to the last attribute that lists it, as that is read alone, and others
to the first one, where no attribute is smaller than one before it. -/
theorem attributesOf_read {h : PerfHeader} {f : QFile} (hread : (read h f {}).1 = true)
    (hsizes : ∀ i j, i ≤ j → j < h.numAttrs.toInt.toNat → sizeAt h f.bytes i ≤ sizeAt h f.bytes j) (id : UInt64) :
    (read h f {}).2.1.attributesOf id =
      match owner? h f.bytes id (List.range h.numAttrs.toInt.toNat) with
      | some i => (attrsAt h f.bytes i).1
      | none => if h.numAttrs.toInt.toNat = 0 then {} else (attrsAt h f.bytes 0).1 := by
  unfold read at hread ⊢
  split at hread
  · cases hread
  · rename_i hsmall
    rw [if_neg hsmall]
    generalize h.numAttrs.toInt.toNat = n at hread hsizes ⊢
    obtain ⟨hfind, hglobal⟩ := readTable_find n 0 hread (fun _ => PerfEventAttributes.within_default _)
      (fun j k _ hjk hk => hsizes j k hjk (by omega))
    rw [attributesOf, hfind, hglobal, List.range_eq_range']
    cases owner? h f.bytes id (List.range' 0 n) with
    | some i => rfl
    | none =>
      rw [Option.map_none, Option.none_or, QHash.find_nil, Option.getD_none]
      by_cases hn : n = 0
      · rw [if_neg (by omega), if_pos hn]
      · rw [if_pos ⟨rfl, by omega⟩, if_neg hn]

/-- A file with two attributes of the oldest version: both list the id 5, the first one alone 6, and none 9. -/
theorem attributesOf_read_shared :
    let h : PerfHeader := { attrSize := 80, attrs := ⟨0, 160⟩ }
    let entry (config place : UInt8) : QByteArray := [4, 0, 0, 0, 64, 0, 0, 0, config] ++ List.replicate 55 0 ++
      [place, 0, 0, 0, 0, 0, 0, 0, 16, 0, 0, 0, 0, 0, 0, 0]
    let id (n : UInt8) : QByteArray := [n, 0, 0, 0, 0, 0, 0, 0]
    let a := (read h ⟨entry 21 160 ++ entry 22 176 ++ (id 5 ++ id 6) ++ (id 5 ++ id 7), 0⟩ {}).2.1
    a.attributesOf 5 = { type := 4, size := 64, config := 22 } ∧
      a.attributesOf 6 = { type := 4, size := 64, config := 21 } ∧
      a.attributesOf 9 = { type := 4, size := 64, config := 21 } := by
  intro h entry id a
  have hread : (read h ⟨entry 21 160 ++ entry 22 176 ++ (id 5 ++ id 6) ++ (id 5 ++ id 7), 0⟩ {}).1 = true := by
    decide
  have hsizes : ∀ i j, i ≤ j → j < 2 →
      sizeAt h (entry 21 160 ++ entry 22 176 ++ (id 5 ++ id 6) ++ (id 5 ++ id 7)) i ≤
        sizeAt h (entry 21 160 ++ entry 22 176 ++ (id 5 ++ id 6) ++ (id 5 ++ id 7)) j := by
    intro i j hij hj
    have hcases : i = j ∨ i = 0 ∧ j = 1 := by omega
    rcases hcases with rfl | ⟨rfl, rfl⟩
    · exact Std.le_refl _
    · decide
  have hcount : h.numAttrs.toInt.toNat = 2 := by decide
  have howner := attributesOf_read hread fun i j hij hj => hsizes i j hij (hcount ▸ hj)
  exact ⟨(howner 5).trans (by decide), (howner 6).trans (by decide), (howner 9).trans (by decide)⟩

end PerfAttributes

end PerfParser
