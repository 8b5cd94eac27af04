import PerfParser.TracingLines
import PerfParser.Lib.Loop
/-!
# TraceData — the fields of a trace event in the raw data of a sample (`perfunwind.cpp`)

A field says where in the raw data it is, or where its place is found if it is dynamic.  The loop over the elements of an
array goes on by their size; where that is zero it does not go on at all (`readTraceData_ends_iff`), and where it does not
divide the size of the field the last element ends behind it (`readTraceData_within_iff`).
-/
namespace PerfParser

open FormatField

/-! ## Values -/

/-- A number, or nothing where the size is none that a number has. -/
inductive TraceItem
  | invalid
  | number (value : Int)
deriving DecidableEq, Repr, Inhabited

inductive TraceValue
  | item (item : TraceItem)
  | bytes (bytes : QByteArray)
  | list (items : List TraceItem)
deriving DecidableEq, Repr, Inhabited

/-- `QVariant::toUInt`. -/
def TraceItem.toUInt : TraceItem → UInt32
  | invalid => 0
  | number value => UInt32.ofNat value.toNat

/-- The bytes that a number is read from, and whether it is an element of an array. -/
structure Access where
  offset : Nat
  width : Nat
  isElement : Bool := false
deriving DecidableEq, Repr

/-! ## Reading -/

/-- A number in the data.  What is behind the data is none of them, so there is nothing to be read there. -/
def readFromArray (data : QByteArray) (offset : UInt32) (width : Nat) (byteSwap : Bool) : Nat :=
  Reader.decode byteSwap ((data.drop offset.toNat).take width)

/-- The sizes that numbers have. -/
def IsNumberSize (size : UInt32) : Prop := size = 1 ∨ size = 2 ∨ size = 4 ∨ size = 8

instance (size : UInt32) : Decidable (IsNumberSize size) := inferInstanceAs (Decidable (_ ∨ _ ∨ _ ∨ _))

def readTraceItem (data : QByteArray) (offset size : UInt32) (isSigned byteSwap : Bool) : TraceItem × List Access :=
  if IsNumberSize size then
    let number := readFromArray data offset size.toNat byteSwap
    (.number (if isSigned then Int.bmod number (256 ^ size.toNat) else number), [⟨offset.toNat, size.toNat, false⟩])
  else (.invalid, [])

namespace FormatField

/-- The field as a whole is not in the data. -/
def outside (field : FormatField) (data : QByteArray) : Bool :=
  decide (field.offset.toNat > intMax ∨ field.size.toNat > intMax ∨ (field.offset + field.size).toNat > intMax ∨
    (field.offset + field.size).toNat > data.length)

/-- The field where the location word says it is. -/
def located (field : FormatField) (dynamicOffsetAndSize : UInt32) : FormatField :=
  { field with
    offset := dynamicOffsetAndSize &&& 0xffff
    size := dynamicOffsetAndSize >>> 16
    flags := field.flags &&& ~~~FIELD_IS_DYNAMIC }

end FormatField

/-- The loop over the elements of an array. -/
structure Elements where
  i : UInt32 := 0
  result : List TraceItem := []
  accesses : List Access := []
deriving DecidableEq, Repr

namespace Elements

def more (field : FormatField) (e : Elements) : Bool := e.i < field.size

def body (data : QByteArray) (field : FormatField) (byteSwap : Bool) (e : Elements) : Elements :=
  let (item, accesses) :=
    readTraceItem data (field.offset + e.i) field.elementsize (field.has FIELD_IS_SIGNED) byteSwap
  { i := e.i + field.elementsize
    result := e.result ++ [item]
    accesses := e.accesses ++ accesses.map (fun a => { a with isElement := true }) }

/-- The list after as many rounds, none while there is more to come, and what has been read for it. -/
def read (rounds : Nat) (data : QByteArray) (field : FormatField) (byteSwap : Bool) :
    Option TraceValue × List Access :=
  let e := Loop.upTo (more field) (body data field byteSwap) rounds {}
  (if more field e then none else some (.list e.result), e.accesses)

end Elements

theorem has_dynamic_located (field : FormatField) (dynamicOffsetAndSize : UInt32) :
    (field.located dynamicOffsetAndSize).has FIELD_IS_DYNAMIC = false := by
  rw [has, located, bne_eq_false_iff_eq, UInt32.and_assoc]
  exact UInt32.and_zero

/-- `PerfUnwind::readTraceData`, with as many rounds of the loop as are given, and what it reads. -/
def readTraceData (rounds : Nat) (data : QByteArray) (field : FormatField) (byteSwap : Bool) :
    Option TraceValue × List Access :=
  if field.outside data then (some (.item .invalid), [])
  else if field.has FIELD_IS_ARRAY then
    if _hdynamic : field.has FIELD_IS_DYNAMIC then
      let (location, accesses) := readTraceItem data field.offset field.size false byteSwap
      let (value, accesses') := readTraceData rounds data (field.located location.toUInt) byteSwap
      (value, accesses ++ accesses')
    else if field.has FIELD_IS_STRING then
      (some (.bytes ((data.drop field.offset.toNat).take field.size.toNat)), [])
    else Elements.read rounds data field byteSwap
  else
    let (item, accesses) := readTraceItem data field.offset field.size (field.has FIELD_IS_SIGNED) byteSwap
    (some (.item item), accesses)
termination_by if field.has FIELD_IS_DYNAMIC then 1 else 0
decreasing_by
  rw [has_dynamic_located, _hdynamic]
  decide

/-! ## Items -/

theorem readTraceItem_of_not {size : UInt32} (h : ¬IsNumberSize size) (data : QByteArray) (offset : UInt32)
    (isSigned byteSwap : Bool) : readTraceItem data offset size isSigned byteSwap = (.invalid, []) := if_neg h

/-- A number is read from where it is, and there are no other reads. -/
theorem mem_accesses_iff {data : QByteArray} {offset size : UInt32} {isSigned byteSwap : Bool} {a : Access} :
    a ∈ (readTraceItem data offset size isSigned byteSwap).2 ↔
      IsNumberSize size ∧ a = ⟨offset.toNat, size.toNat, false⟩ := by
  by_cases h : IsNumberSize size
  · rw [readTraceItem, if_pos h, List.mem_singleton, and_iff_right h]
  · rw [readTraceItem_of_not h]
    exact iff_of_false List.not_mem_nil fun hand => h hand.1

namespace FormatField

theorem outside_eq_false_iff (field : FormatField) (data : QByteArray) : field.outside data = false ↔
    field.offset.toNat + field.size.toNat ≤ intMax ∧ field.offset.toNat + field.size.toNat ≤ data.length := by
  have hmax : intMax = 0x7FFFFFFF := rfl
  have hoffset := field.offset.toNat_lt
  have hsize := field.size.toNat_lt
  rw [outside, decide_eq_false_iff_not, UInt32.toNat_add]
  omega

end FormatField

/-! ## The loop -/

namespace Elements

variable (data : QByteArray) (field : FormatField) (byteSwap : Bool)

/-- The element of that index. -/
def element (j : Nat) : TraceItem × List Access :=
  readTraceItem data (field.offset + UInt32.ofNat (j * field.elementsize.toNat)) field.elementsize
    (field.has FIELD_IS_SIGNED) byteSwap

/-- What the loop has done: `k` elements, each of which starts in the field. -/
structure Done (k : Nat) (e : Elements) : Prop where
  i : e.i.toNat = k * field.elementsize.toNat
  starts : ∀ j < k, j * field.elementsize.toNat < field.size.toNat
  result : e.result = (List.range k).map fun j => (element data field byteSwap j).1
  accesses : e.accesses =
    (List.range k).flatMap fun j => (element data field byteSwap j).2.map fun a => { a with isElement := true }

/-- Nothing of the loop wraps. -/
def Narrow : Prop := field.size.toNat + field.elementsize.toNat < 2 ^ 32

theorem done_zero : Done data field byteSwap 0 {} :=
  ⟨(Nat.zero_mul _).symm, fun _ h => (Nat.not_lt_zero _ h).elim, rfl, rfl⟩

variable {data field byteSwap}

theorem Done.body {k : Nat} {e : Elements} (h : Done data field byteSwap k e) (hnarrow : Narrow field)
    (hmore : more field e = true) : Done data field byteSwap (k + 1) (body data field byteSwap e) := by
  have hlt : e.i.toNat < field.size.toNat := UInt32.lt_iff_toNat_lt.1 (of_decide_eq_true hmore)
  have hi : e.i = UInt32.ofNat (k * field.elementsize.toNat) := by rw [← h.i, UInt32.ofNat_toNat]
  have hnarrow' : field.size.toNat + field.elementsize.toNat < 2 ^ 32 := hnarrow
  refine ⟨?_, fun j hj => ?_, ?_, ?_⟩
  · rw [Elements.body, UInt32.toNat_add, Nat.mod_eq_of_lt (by omega), h.i, Nat.succ_mul]
  · rcases Nat.lt_succ_iff_lt_or_eq.1 hj with hj | rfl
    · exact h.starts j hj
    · rwa [← h.i]
  · rw [List.range_succ, List.map_append, ← h.result, Elements.body, hi]
    rfl
  · rw [List.range_succ, List.flatMap_append, ← h.accesses, Elements.body, hi, List.flatMap_singleton]
    rfl

theorem exists_done (hnarrow : Narrow field) (rounds : Nat) :
    ∃ k, Done data field byteSwap k (Loop.upTo (more field) (body data field byteSwap) rounds {}) :=
  Loop.upTo_invariant (P := fun e => ∃ k, Done data field byteSwap k e)
    (fun _ ⟨k, h⟩ hmore => ⟨k + 1, h.body hnarrow hmore⟩) rounds ⟨0, done_zero data field byteSwap⟩

/-- **The loop ends if and only if it gets on, or there is nothing to do.** -/
theorem ends_iff (hnarrow : Narrow field) : Loop.Ends (more field) (body data field byteSwap) {} ↔
    ¬(field.elementsize = 0 ∧ 0 < field.size) := by
  constructor
  · rintro h ⟨hzero, hpos⟩
    refine Loop.not_ends (P := fun e => e.i = 0) (fun e he => ⟨?_, ?_⟩) rfl h
    · rw [more, he]
      exact decide_eq_true hpos
    · rw [body, hzero, he]
      rfl
  · intro h
    by_cases hpos : 0 < field.size
    · have hstep : 0 < field.elementsize.toNat := Nat.pos_of_ne_zero fun hzero =>
        h ⟨UInt32.toNat_inj.1 hzero, hpos⟩
      refine Loop.Ends.of_measure (P := fun e => ∃ k, Done data field byteSwap k e)
        (fun e => field.size.toNat - e.i.toNat) (fun e ⟨k, he⟩ hmore => ⟨⟨k + 1, he.body hnarrow hmore⟩, ?_⟩)
        ⟨0, done_zero data field byteSwap⟩
      have hlt : e.i.toNat < field.size.toNat := UInt32.lt_iff_toNat_lt.1 (of_decide_eq_true hmore)
      rw [(he.body hnarrow hmore).i, Nat.succ_mul, ← he.i]
      omega
    · exact Loop.ends_of_not (decide_eq_false hpos)

theorem Done.mem_accesses_iff {k : Nat} {e : Elements} (h : Done data field byteSwap k e) {a : Access} :
    a ∈ e.accesses ↔ IsNumberSize field.elementsize ∧ ∃ j < k,
      a = ⟨(field.offset + UInt32.ofNat (j * field.elementsize.toNat)).toNat, field.elementsize.toNat, true⟩ := by
  rw [h.accesses, List.mem_flatMap]
  simp only [List.mem_range, List.mem_map, element, PerfParser.mem_accesses_iff]
  constructor
  · rintro ⟨j, hj, _, ⟨hsize, rfl⟩, rfl⟩
    exact ⟨hsize, j, hj, rfl⟩
  · rintro ⟨hsize, j, hj, rfl⟩
    exact ⟨j, hj, _, ⟨hsize, rfl⟩, rfl⟩

/-- Where an element is, of a field that is in the data. -/
theorem Done.toNat_offset {k : Nat} {e : Elements} (h : Done data field byteSwap k e)
    (hinside : field.outside data = false) {j : Nat} (hj : j < k) :
    (field.offset + UInt32.ofNat (j * field.elementsize.toNat)).toNat =
      field.offset.toNat + j * field.elementsize.toNat := by
  have hmax : intMax = 0x7FFFFFFF := rfl
  have hfit := ((field.outside_eq_false_iff data).1 hinside).1
  have hlt := h.starts j hj
  rw [UInt32.toNat_add, UInt32.toNat_ofNat', Nat.mod_eq_of_lt (a := j * _) (by omega), Nat.mod_eq_of_lt (by omega)]

/-- The elements that are read end in the field, if their size divides that of the field. -/
theorem Done.within {k : Nat} {e : Elements} (h : Done data field byteSwap k e) (hinside : field.outside data = false)
    (hdvd : IsNumberSize field.elementsize → field.elementsize.toNat ∣ field.size.toNat) :
    ∀ a ∈ e.accesses, field.offset.toNat ≤ a.offset ∧ a.offset + a.width ≤ field.offset.toNat + field.size.toNat := by
  intro a ha
  obtain ⟨hsize, j, hj, rfl⟩ := h.mem_accesses_iff.1 ha
  obtain ⟨n, hn⟩ := hdvd hsize
  have hlt := h.starts j hj
  have hstart := h.toNat_offset hinside hj
  -- the element starts before the last of `n` ends
  have hjn : j < n := by
    rw [hn, Nat.mul_comm] at hlt
    exact Nat.lt_of_mul_lt_mul_left hlt
  have hend : (j + 1) * field.elementsize.toNat ≤ field.size.toNat := by
    rw [hn, Nat.mul_comm]
    exact Nat.mul_le_mul_left _ hjn
  rw [Nat.succ_mul] at hend
  dsimp only
  omega

/-- If it does not, the last of them ends behind the field. -/
theorem exists_behind (hnarrow : Narrow field) (hinside : field.outside data = false)
    (hsize : IsNumberSize field.elementsize) (hdvd : ¬field.elementsize.toNat ∣ field.size.toNat) :
    ∃ rounds, ∃ a ∈ (Elements.read rounds data field byteSwap).2,
      a.isElement = true ∧ field.offset.toNat + field.size.toNat < a.offset + a.width := by
  have hstep : field.elementsize ≠ 0 := by
    rintro hzero
    rw [hzero] at hsize
    exact absurd hsize (by decide)
  obtain ⟨t, rounds, hrun⟩ := (@ends_iff data field byteSwap hnarrow).2 fun h => hstep h.1
  obtain ⟨rfl, hmore⟩ := Loop.upTo_of_run hrun
  obtain ⟨k, hdone⟩ := @exists_done data field byteSwap hnarrow rounds
  have hle : field.size.toNat ≤ k * field.elementsize.toNat := by
    rw [← hdone.i]
    exact Nat.not_lt.1 fun hlt => of_decide_eq_false hmore (UInt32.lt_iff_toNat_lt.2 hlt)
  have hne : field.size.toNat ≠ k * field.elementsize.toNat := fun heq => hdvd (heq ▸ Nat.dvd_mul_left _ k)
  cases k with
  | zero => omega
  | succ j =>
    have hstart := hdone.toNat_offset hinside (Nat.lt_succ_self j)
    refine ⟨rounds, _, hdone.mem_accesses_iff.2 ⟨hsize, j, Nat.lt_succ_self j, rfl⟩, rfl, ?_⟩
    rw [Nat.succ_mul] at hle hne
    dsimp only
    omega

end Elements

/-! ## Where the loop is run -/

section Reached

variable {data : QByteArray} {field : FormatField} {byteSwap : Bool}

/-- The word that says where a dynamic field is. -/
def location (data : QByteArray) (field : FormatField) (byteSwap : Bool) : TraceItem × List Access :=
  readTraceItem data field.offset field.size false byteSwap

/-- The field that the elements are in. -/
def elementsField (data : QByteArray) (field : FormatField) (byteSwap : Bool) : FormatField :=
  if field.has FIELD_IS_DYNAMIC then field.located (location data field byteSwap).1.toUInt else field

/-- The loop over the elements is run. -/
structure LoopReached (data : QByteArray) (field : FormatField) (byteSwap : Bool) : Prop where
  inside : field.outside data = false
  isArray : field.has FIELD_IS_ARRAY = true
  noString : field.has FIELD_IS_STRING = false
  elementsInside : (elementsField data field byteSwap).outside data = false

theorem has_located {flag : UInt32} (h : ~~~FIELD_IS_DYNAMIC &&& flag = flag) (field : FormatField)
    (dynamicOffsetAndSize : UInt32) : (field.located dynamicOffsetAndSize).has flag = field.has flag := by
  rw [has, located, UInt32.and_assoc, h, has]

theorem readTraceData_static (rounds : Nat) (hdynamic : field.has FIELD_IS_DYNAMIC = false)
    (hinside : field.outside data = false) (harray : field.has FIELD_IS_ARRAY = true) :
    readTraceData rounds data field byteSwap =
      if field.has FIELD_IS_STRING then (some (.bytes ((data.drop field.offset.toNat).take field.size.toNat)), [])
      else Elements.read rounds data field byteSwap := by
  rw [readTraceData, if_neg (ne_true_of_eq_false hinside), if_pos harray,
    dif_neg (ne_true_of_eq_false hdynamic)]

theorem readTraceData_dynamic (rounds : Nat) (hdynamic : field.has FIELD_IS_DYNAMIC = true)
    (hinside : field.outside data = false) (harray : field.has FIELD_IS_ARRAY = true) :
    readTraceData rounds data field byteSwap =
      ((readTraceData rounds data (elementsField data field byteSwap) byteSwap).1,
        (location data field byteSwap).2 ++
          (readTraceData rounds data (elementsField data field byteSwap) byteSwap).2) := by
  rw [readTraceData, if_neg (ne_true_of_eq_false hinside), if_pos harray, dif_pos hdynamic,
    elementsField, if_pos hdynamic]
  rfl

/-- What is read of the field outside of the loop is in the data, and no element. -/
theorem mem_location (hinside : field.outside data = false) {isSigned : Bool} {a : Access}
    (ha : a ∈ (readTraceItem data field.offset field.size isSigned byteSwap).2) :
    a.isElement = false ∧ a.offset + a.width ≤ data.length := by
  obtain ⟨-, rfl⟩ := mem_accesses_iff.1 ha
  exact ⟨rfl, ((field.outside_eq_false_iff data).1 hinside).2⟩

theorem readTraceData_outside (rounds : Nat) (houtside : field.outside data = true) :
    readTraceData rounds data field byteSwap = (some (.item .invalid), []) := by
  rw [readTraceData, if_pos houtside]

/-- No array is a number, or nothing. -/
theorem readTraceData_number (rounds : Nat) (hinside : field.outside data = false)
    (harray : field.has FIELD_IS_ARRAY = false) :
    readTraceData rounds data field byteSwap =
      (some (.item (readTraceItem data field.offset field.size (field.has FIELD_IS_SIGNED) byteSwap).1),
        (readTraceItem data field.offset field.size (field.has FIELD_IS_SIGNED) byteSwap).2) := by
  rw [readTraceData, if_neg (ne_true_of_eq_false hinside),
    if_neg (ne_true_of_eq_false harray)]

/-- **Where the loop is run, it says what is read**, but for the location word. -/
theorem readTraceData_of_loop (h : LoopReached data field byteSwap) (rounds : Nat) :
    ∃ accesses, (∀ a ∈ accesses, a.isElement = false ∧ a.offset + a.width ≤ data.length) ∧
      readTraceData rounds data field byteSwap =
        ((Elements.read rounds data (elementsField data field byteSwap) byteSwap).1,
          accesses ++ (Elements.read rounds data (elementsField data field byteSwap) byteSwap).2) := by
  have hstring : ¬field.has FIELD_IS_STRING = true := by rw [h.noString]; exact Bool.false_ne_true
  cases hdynamic : field.has FIELD_IS_DYNAMIC with
  | false =>
    have hfield : elementsField data field byteSwap = field := by
      rw [elementsField, if_neg (ne_true_of_eq_false hdynamic)]
    refine ⟨[], fun _ ha => (List.not_mem_nil ha).elim, ?_⟩
    rw [readTraceData_static rounds hdynamic h.inside h.isArray, if_neg hstring, hfield]
    rfl
  | true =>
    have hfield : elementsField data field byteSwap = field.located (location data field byteSwap).1.toUInt := by
      rw [elementsField, if_pos hdynamic]
    have hinside := h.elementsInside
    refine ⟨(location data field byteSwap).2, fun _ => mem_location h.inside, ?_⟩
    rw [readTraceData_dynamic rounds hdynamic h.inside h.isArray]
    rw [hfield] at hinside ⊢
    rw [readTraceData_static rounds (has_dynamic_located _ _) hinside
      ((has_located (by decide) _ _).trans h.isArray), has_located (by decide), if_neg hstring]

/-- **Where it is not, the reading comes to an end**, and what is read is in the data. -/
theorem readTraceData_of_not_loop (h : ¬LoopReached data field byteSwap) (rounds : Nat) :
    (readTraceData rounds data field byteSwap).1.isSome = true ∧
      ∀ a ∈ (readTraceData rounds data field byteSwap).2, a.isElement = false ∧ a.offset + a.width ≤ data.length := by
  cases houtside : field.outside data with
  | true =>
    rw [readTraceData_outside rounds houtside]
    exact ⟨rfl, fun _ ha => (List.not_mem_nil ha).elim⟩
  | false =>
    cases harray : field.has FIELD_IS_ARRAY with
    | false =>
      rw [readTraceData_number rounds houtside harray]
      exact ⟨rfl, fun _ => mem_location houtside⟩
    | true =>
      cases hdynamic : field.has FIELD_IS_DYNAMIC with
      | false =>
        have hfield : elementsField data field byteSwap = field := by
          rw [elementsField, if_neg (ne_true_of_eq_false hdynamic)]
        have hstring : field.has FIELD_IS_STRING = true := by
          by_contra hno
          exact h ⟨houtside, harray, Bool.not_eq_true _ ▸ hno, by rwa [hfield]⟩
        rw [readTraceData_static rounds hdynamic houtside harray, if_pos hstring]
        exact ⟨rfl, fun _ ha => (List.not_mem_nil ha).elim⟩
      | true =>
        rw [readTraceData_dynamic rounds hdynamic houtside harray]
        have hfield : elementsField data field byteSwap = field.located (location data field byteSwap).1.toUInt := by
          rw [elementsField, if_pos hdynamic]
        cases hinside : (elementsField data field byteSwap).outside data with
        | true =>
          rw [readTraceData_outside rounds hinside, List.append_nil]
          exact ⟨rfl, fun _ => mem_location houtside⟩
        | false =>
          have hstring : field.has FIELD_IS_STRING = true := by
            by_contra hno
            exact h ⟨houtside, harray, Bool.not_eq_true _ ▸ hno, hinside⟩
          rw [hfield] at hinside ⊢
          rw [readTraceData_static rounds (has_dynamic_located _ _) hinside
            ((has_located (by decide) _ _).trans harray), has_located (by decide), if_pos hstring, List.append_nil]
          exact ⟨rfl, fun _ => mem_location houtside⟩

end Reached

/-! ## Fields that are read from lines -/

namespace FormatField

/-- What the parts of a line leave alone. -/
structure SameRest (field field' : FormatField) : Prop where
  elementsize : field'.elementsize = field.elementsize
  isString : field'.has FIELD_IS_STRING = field.has FIELD_IS_STRING

theorem SameRest.refl (field : FormatField) : field.SameRest field := ⟨rfl, rfl⟩

theorem SameRest.trans {a b c : FormatField} (h : a.SameRest b) (h' : b.SameRest c) : a.SameRest c :=
  ⟨h'.elementsize.trans h.elementsize, h'.isString.trans h.isString⟩

theorem rest_setFlag {flag : UInt32} (h : flag &&& FIELD_IS_STRING = 0) (field : FormatField) :
    field.SameRest (field.setFlag flag) := ⟨rfl, has_setFlag h field⟩

theorem rest_readDeclaration (value : QByteArray) (field : FormatField) :
    field.SameRest (field.readDeclaration value) := by
  have hpointer : ∀ fieldName, field.SameRest (readPointer fieldName field).2 := fun fieldName => by
    rw [readPointer]
    split
    · exact rest_setFlag (by decide) field
    · exact .refl field
  have hlength : ∀ (fieldName : QByteArray) (field : FormatField),
      field.SameRest (readArrayLength fieldName field).2 := fun fieldName field => by
    rw [readArrayLength]
    split
    · exact ⟨rfl, has_setFlag (by decide) field⟩
    · exact .refl field
  unfold readDeclaration
  dsimp only
  split
  · exact ((hpointer _).trans (hlength _ _)).trans ⟨rfl, has_setFlag (by decide) _⟩
  · exact ((hpointer _).trans (hlength _ _)).trans ⟨rfl, rfl⟩

theorem rest_handle (name value : QByteArray) (field : FormatField) : field.SameRest (handle name value field) := by
  unfold handle
  repeat' split
  · exact rest_readDeclaration value field
  · exact ⟨rfl, rfl⟩
  · exact ⟨rfl, rfl⟩
  · exact rest_setFlag (by decide) field
  all_goals exact .refl field

theorem rest_setTypeFlags (field : FormatField) : field.SameRest field.setTypeFlags := by
  have hdynamic : field.SameRest (if QByteArray.ofString "__data_loc" <+: field.type then field.setFlag FIELD_IS_DYNAMIC
      else field) := by
    split
    · exact rest_setFlag (by decide) field
    · exact .refl field
  unfold setTypeFlags
  dsimp only
  generalize (if QByteArray.ofString "__data_loc" <+: field.type then field.setFlag FIELD_IS_DYNAMIC
    else field) = field' at hdynamic ⊢
  split
  · exact hdynamic.trans (rest_setFlag (by decide) field')
  · exact hdynamic

/-- What follows from the type starts without a size of the elements, and as no text. -/
theorem rest_line (line : QByteArray) : ({} : FormatField).SameRest (processLine handle line {}).setTypeFlags :=
  (processLine_keeps handle (P := SameRest {}) (fun name value field h => h.trans (rest_handle name value field)) line
    (.refl {})).trans (rest_setTypeFlags _)

/-- The declaration says nothing of the size of the elements: there are too many of them for the size of the field, or
their type is none of a known size, a long of a machine without a long size among them. -/
def NoElementSize (fileLongSize : Bool) (field : FormatField) : Prop :=
  (field.typeContains "char" || field.typeContains "u8" || field.typeContains "s8") = false ∧
    if field.arraylen > 0 then field.size < field.arraylen
    else (field.typeContains "u16" || field.typeContains "s16") = false ∧
      (field.typeContains "u32" || field.typeContains "s32") = false ∧
      (field.typeContains "u64" || field.typeContains "s64") = false ∧ (field.has FIELD_IS_LONG && fileLongSize) = false

theorem div_eq_zero_iff {a b : UInt32} (hb : b > 0) : a / b = 0 ↔ a < b := by
  have hpos : 0 < b.toNat := UInt32.lt_iff_toNat_lt.1 hb
  rw [← UInt32.toNat_inj, UInt32.toNat_div, UInt32.toNat_zero, Nat.div_eq_zero_iff, UInt32.lt_iff_toNat_lt]
  exact or_iff_right (by omega)

theorem elementsize_eq_zero_iff (fileLongSize : Bool) {field : FormatField} (hzero : field.elementsize = 0)
    (harray : field.has FIELD_IS_ARRAY = true) :
    (field.setElementSize fileLongSize).elementsize = 0 ↔ NoElementSize fileLongSize field := by
  rw [setElementSize, NoElementSize, if_pos harray]
  cases field.typeContains "char" || field.typeContains "u8" || field.typeContains "s8" with
  | true => exact iff_of_false (fun h => absurd (show (1 : UInt32) = 0 from h) (by decide)) fun h => Bool.noConfusion h.1
  | false =>
    rw [if_neg Bool.false_ne_true, and_iff_right rfl]
    by_cases hlength : field.arraylen > 0
    · rw [if_pos hlength, if_pos hlength]
      exact div_eq_zero_iff hlength
    · -- the sizes that the type may say, one after the other
      have hsaid : ∀ {n : UInt32} {p : Prop}, n ≠ 0 → (n = 0 ↔ true = false ∧ p) := fun hn =>
        iff_of_false hn fun h => Bool.noConfusion h.1
      rw [if_neg hlength, if_neg hlength]
      cases field.typeContains "u16" || field.typeContains "s16" with
      | true => exact hsaid (n := 2) (by decide)
      | false =>
        rw [if_neg Bool.false_ne_true, and_iff_right rfl]
        cases field.typeContains "u32" || field.typeContains "s32" with
        | true => exact hsaid (n := 4) (by decide)
        | false =>
          rw [if_neg Bool.false_ne_true, and_iff_right rfl]
          cases field.typeContains "u64" || field.typeContains "s64" with
          | true => exact hsaid (n := 8) (by decide)
          | false =>
            rw [if_neg Bool.false_ne_true, and_iff_right rfl]
            cases field.has FIELD_IS_LONG with
            | false => exact iff_of_true hzero rfl
            | true =>
              cases fileLongSize with
              | false => exact iff_of_true rfl rfl
              | true =>
                have hone : (1 : UInt32) ≠ 0 := by decide
                exact iff_of_false hone Bool.noConfusion

/-- No element is larger than its field, unless that is smaller than any. -/
theorem elementsize_le (fileLongSize : Bool) {field : FormatField} (hzero : field.elementsize = 0) :
    (field.setElementSize fileLongSize).elementsize.toNat ≤ max 8 field.size.toNat := by
  have hquotient : (field.size / field.arraylen).toNat ≤ field.size.toNat := by
    rw [UInt32.toNat_div]
    exact Nat.div_le_self _ _
  have hsmall : ∀ n : UInt32, n.toNat ≤ 8 → n.toNat ≤ max 8 field.size.toNat := fun n hn =>
    Nat.le_trans hn (Nat.le_max_left _ _)
  unfold setElementSize
  repeat' split
  · exact hsmall 1 (by decide)
  · exact Nat.le_trans hquotient (Nat.le_max_right _ _)
  · exact hsmall 2 (by decide)
  · exact hsmall 4 (by decide)
  · exact hsmall 8 (by decide)
  · exact hsmall 1 (by decide)
  · exact hsmall 0 (by decide)
  · rw [hzero]
    exact hsmall 0 (by decide)
  · exact Nat.le_max_right _ _

theorem has_long_setElementSize (fileLongSize : Bool) (field : FormatField) :
    (field.setElementSize fileLongSize).has FIELD_IS_LONG = field.has FIELD_IS_LONG := by
  unfold setElementSize
  repeat' split
  · exact has_setFlag (by decide) field
  all_goals rfl

variable (fileLongSize : Bool) (line : QByteArray)

/-- The elements have a size unless the declaration says nothing of it. -/
theorem readFormatField_elementsize_eq_zero_iff
    (harray : (readFormatField fileLongSize line).has FIELD_IS_ARRAY = true) :
    (readFormatField fileLongSize line).elementsize = 0 ↔
      NoElementSize fileLongSize (readFormatField fileLongSize line) := by
  have hsame := same_setElementSize fileLongSize (processLine handle line {}).setTypeFlags
  rw [readFormatField] at harray ⊢
  rw [hsame.isArray] at harray
  rw [elementsize_eq_zero_iff fileLongSize (rest_line line).elementsize harray, NoElementSize, NoElementSize]
  simp only [typeContains, hsame.type, hsame.arraylen, hsame.size, has_long_setElementSize]

theorem readFormatField_elementsize_le : (readFormatField fileLongSize line).elementsize.toNat ≤
    max 8 (readFormatField fileLongSize line).size.toNat := by
  have hsame := same_setElementSize fileLongSize (processLine handle line {}).setTypeFlags
  have hle := elementsize_le fileLongSize (rest_line line).elementsize
  rwa [← hsame.size] at hle

end FormatField

/-! ## All of them -/

theorem Elements.isSome_read_iff (data : QByteArray) (field : FormatField) (byteSwap : Bool) :
    (∃ rounds, (Elements.read rounds data field byteSwap).1.isSome = true) ↔
      Loop.Ends (more field) (body data field byteSwap) {} := by
  constructor
  · rintro ⟨rounds, h⟩
    rw [Elements.read] at h
    dsimp only at h
    split at h
    · cases h
    · rename_i hmore
      exact ⟨_, rounds, if_neg hmore⟩
  · rintro ⟨t, rounds, hrun⟩
    obtain ⟨rfl, hmore⟩ := Loop.upTo_of_run hrun
    refine ⟨rounds, ?_⟩
    rw [Elements.read, hmore]
    rfl

section Produced

variable (fileLongSize : Bool) (line data : QByteArray) (byteSwap : Bool)

theorem elementsize_elementsField (field : FormatField) :
    (elementsField data field byteSwap).elementsize = field.elementsize := by
  unfold elementsField
  split <;> rfl

/-- The loop over the elements of such a field does not wrap. -/
theorem narrow_readFormatField (h : LoopReached data (readFormatField fileLongSize line) byteSwap) :
    Elements.Narrow (elementsField data (readFormatField fileLongSize line) byteSwap) := by
  have hmax : intMax = 0x7FFFFFFF := rfl
  have hsize := ((outside_eq_false_iff _ data).1 h.inside).1
  have hsize' := ((outside_eq_false_iff _ data).1 h.elementsInside).1
  have hle := readFormatField_elementsize_le fileLongSize line
  rw [Elements.Narrow, elementsize_elementsField]
  omega

/-- **The reading of a field comes to an end unless the loop is run over elements without a size.** -/
theorem readTraceData_ends_iff :
    (∃ rounds, (readTraceData rounds data (readFormatField fileLongSize line) byteSwap).1.isSome = true) ↔
      ¬(LoopReached data (readFormatField fileLongSize line) byteSwap ∧
        0 < (elementsField data (readFormatField fileLongSize line) byteSwap).size ∧
        NoElementSize fileLongSize (readFormatField fileLongSize line)) := by
  by_cases hloop : LoopReached data (readFormatField fileLongSize line) byteSwap
  · have hread : (∃ rounds, (readTraceData rounds data (readFormatField fileLongSize line) byteSwap).1.isSome = true) ↔
        ∃ rounds, (Elements.read rounds data (elementsField data (readFormatField fileLongSize line) byteSwap)
          byteSwap).1.isSome = true := exists_congr fun rounds => by
      obtain ⟨_, -, hread⟩ := readTraceData_of_loop hloop rounds
      rw [hread]
    rw [hread, Elements.isSome_read_iff, Elements.ends_iff (narrow_readFormatField fileLongSize line data byteSwap hloop),
      elementsize_elementsField, readFormatField_elementsize_eq_zero_iff fileLongSize line hloop.isArray,
      and_iff_right hloop, and_comm]
  · exact iff_of_true ⟨0, (readTraceData_of_not_loop hloop 0).1⟩ fun h => hloop h.1

/-- **All numbers are read from the data, and all elements from their field, unless the loop is run over elements that do
not fill the field.** -/
theorem readTraceData_within_iff :
    (∀ rounds, ∀ a ∈ (readTraceData rounds data (readFormatField fileLongSize line) byteSwap).2,
      a.offset + a.width ≤ data.length ∧ (a.isElement = true →
        (elementsField data (readFormatField fileLongSize line) byteSwap).offset.toNat ≤ a.offset ∧
        a.offset + a.width ≤ (elementsField data (readFormatField fileLongSize line) byteSwap).offset.toNat +
          (elementsField data (readFormatField fileLongSize line) byteSwap).size.toNat)) ↔
      ¬(LoopReached data (readFormatField fileLongSize line) byteSwap ∧
        IsNumberSize (readFormatField fileLongSize line).elementsize ∧
        ¬(readFormatField fileLongSize line).elementsize.toNat ∣
          (elementsField data (readFormatField fileLongSize line) byteSwap).size.toNat) := by
  have hstep := elementsize_elementsField data byteSwap (readFormatField fileLongSize line)
  constructor
  · rintro h ⟨hloop, hsize, hdvd⟩
    rw [← hstep] at hsize hdvd
    obtain ⟨rounds, a, ha, helement, hbehind⟩ := Elements.exists_behind
      (narrow_readFormatField fileLongSize line data byteSwap hloop) hloop.elementsInside hsize hdvd
    obtain ⟨_, -, hread⟩ := readTraceData_of_loop hloop rounds
    have hwithin := (h rounds a (by rw [hread]; exact List.mem_append_right _ ha)).2 helement
    omega
  · intro hfills rounds a ha
    by_cases hloop : LoopReached data (readFormatField fileLongSize line) byteSwap
    · obtain ⟨_, hlocation, hread⟩ := readTraceData_of_loop hloop rounds
      rw [hread] at ha
      rcases List.mem_append.1 ha with ha | ha
      · obtain ⟨helement, hinside⟩ := hlocation a ha
        exact ⟨hinside, fun h => absurd h (ne_true_of_eq_false helement)⟩
      · obtain ⟨k, hdone⟩ := Elements.exists_done (narrow_readFormatField fileLongSize line data byteSwap hloop) rounds
        have hwithin := hdone.within hloop.elementsInside (fun hsize => by
          by_contra hdvd
          rw [hstep] at hsize hdvd
          exact hfills ⟨hloop, hsize, hdvd⟩) a ha
        have hinside := ((outside_eq_false_iff _ data).1 hloop.elementsInside).2
        exact ⟨by omega, fun _ => hwithin⟩
    · obtain ⟨helement, hinside⟩ := (readTraceData_of_not_loop hloop rounds).2 a ha
      exact ⟨hinside, fun h => absurd h (ne_true_of_eq_false helement)⟩

end Produced

/-- An array of no declared length, of a type that is none of a known size. -/
def unsizedLine : QByteArray := QByteArray.ofString "\tfield:int a[];\toffset:0;\tsize:4;\tsigned:1;"

/-- The loop over its elements does not end. -/
theorem not_readTraceData_ends : ¬∀ (fileLongSize : Bool) (line data : QByteArray) (byteSwap : Bool),
    ∃ rounds, (readTraceData rounds data (readFormatField fileLongSize line) byteSwap).1.isSome = true := by
  intro h
  obtain ⟨rounds, hends⟩ := h true unsizedLine [1, 0, 0, 0] false
  have hfield : readFormatField true unsizedLine =
      { type := QByteArray.ofString "int", name := QByteArray.ofString "a", size := 4, flags := 5 } := by
    decide +kernel
  rw [hfield, readTraceData_static rounds (by decide) (by decide) (by decide), if_neg (by decide)] at hends
  have hloop := (Elements.isSome_read_iff _ _ _).1 ⟨rounds, hends⟩
  rw [Elements.ends_iff (by rw [Elements.Narrow]; decide)] at hloop
  exact hloop ⟨rfl, by decide⟩

/-- An array of no declared length, in a field that its elements do not fill. -/
def unevenLine : QByteArray := QByteArray.ofString "\tfield:u16 a[];\toffset:0;\tsize:3;\tsigned:0;"

/-- The second of them ends behind the data. -/
theorem not_readTraceData_within : ¬∀ (fileLongSize : Bool) (line data : QByteArray) (byteSwap : Bool) (rounds : Nat),
    ∀ a ∈ (readTraceData rounds data (readFormatField fileLongSize line) byteSwap).2, a.offset + a.width ≤ data.length := by
  intro h
  have hwithin := h true unevenLine [1, 0, 2] false 2
  have hfield : readFormatField true unevenLine =
      { type := QByteArray.ofString "u16", name := QByteArray.ofString "a", size := 3, elementsize := 2, flags := 1 } := by
    decide +kernel
  rw [hfield, readTraceData_static 2 (by decide) (by decide) (by decide), if_neg (by decide)] at hwithin
  exact absurd (hwithin ⟨2, 2, true⟩ (by decide)) (by decide)

end PerfParser
