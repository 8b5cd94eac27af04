import PerfParser.PerfData
import PerfParser.PerfFeatures
import PerfParser.ReadFormats
/-!
# ListBounds — how many elements a decoder makes of what it is given (`perfdata.cpp`, `perffeatures.cpp`)

A decoder of a list reads as many elements as the input says there are, with nothing to check whether the record or the
section has room for them behind their number; past the end of the file they are made of zeros.  So the lists fit if and
only if what the input announces does (`lists_fit_iff`).
-/
namespace PerfParser

open PerfEventAttributes Reader QDataStream

variable (bigEndian : Bool)

/-! ## Numbers by their places -/

def u32At (s : QByteArray) (offset : Nat) : UInt32 := ((u32 bigEndian).run (s.drop offset)).1

def u64At (s : QByteArray) (offset : Nat) : UInt64 := ((u64 bigEndian).run (s.drop offset)).1

theorem u32At_drop (s : QByteArray) (offset : Nat) : u32At bigEndian (s.drop offset) 0 = u32At bigEndian s offset := by
  rw [u32At, List.drop_zero, u32At]

theorem u64At_drop (s : QByteArray) (offset : Nat) : u64At bigEndian (s.drop offset) 0 = u64At bigEndian s offset := by
  rw [u64At, List.drop_zero, u64At]

/-- What a section takes that has its length in front, behind the length: two steps where the length is not an `int`. -/
def lengthTaken (length : UInt32) : Nat :=
  if length.toNat > intMax then intMax + (length - UInt32.ofNat intMax).toInt32.toInt.toNat else length.toNat

/-! ## Attributes and their ids -/

namespace PerfEventAttributes

/-- What an attribute of that size takes. -/
def lengthTaken (size : UInt32) : Nat :=
  if size < SIZE_VER0 then 8
  else 64 + ((if decide (size > SIZE_VER0) then 8 else 0) + ((if decide (size > SIZE_VER1) then 8 else 0) +
    ((if decide (size > SIZE_VER2) then 16 else 0) + ((if decide (size > SIZE_VER3) then 8 else 0) +
    ((if decide (size > SIZE_VER4) then 8 else 0) +
    (if decide (size > SIZE_VER5) then (size - SIZE_VER5).toNat else 0))))))

theorem run_when_size {f : PerfEventAttributes → Reader UInt8 PerfEventAttributes}
    (hf : ∀ attrs s, ((f attrs).run s).1.size = attrs.size) (present : Bool) (attrs : PerfEventAttributes)
    (s : QByteArray) : ((Reader.when present f attrs).run s).1.size = attrs.size := by
  cases present with
  | false => rfl
  | true => exact hf attrs s

theorem run_read_size (attrs : PerfEventAttributes) (s : QByteArray) :
    ((attrs.read bigEndian).run s).1.size = u32At bigEndian s 4 := by
  have hsize : ((u32 bigEndian).run ((u32 bigEndian).run s).2).1 = u32At bigEndian s 4 := by
    rw [(takes_u32 bigEndian).run_snd, u32At]
  simp only [read, run_bind, hsize]
  split
  · rfl
  · simp only [run_bind]
    rw [run_when_size (fun _ _ => rfl), run_when_size (fun _ _ => rfl), run_when_size (fun _ _ => rfl),
      run_when_size (fun _ _ => rfl), run_when_size (fun _ _ => rfl), run_when_size (fun _ _ => rfl)]
    rfl

theorem takes_readVersion0 (attrs : PerfEventAttributes) : Takes (attrs.readVersion0 bigEndian) 56 :=
  (takes_u64 bigEndian).bind (m := 8) (n := 48) fun _ => (takes_u64 bigEndian).bind (m := 8) (n := 40) fun _ =>
    (takes_u64 bigEndian).bind (m := 8) (n := 32) fun _ => (takes_u64 bigEndian).bind (m := 8) (n := 24) fun _ =>
    (takes_u64 bigEndian).bind (m := 8) (n := 16) fun _ => (takes_u32 bigEndian).bind (m := 4) (n := 12) fun _ =>
    (takes_u32 bigEndian).bind (m := 4) (n := 8) fun _ => (takes_u64 bigEndian).map _

theorem takes_readVersion3 (attrs : PerfEventAttributes) : Takes (attrs.readVersion3 bigEndian) 16 :=
  (takes_u64 bigEndian).bind (m := 8) (n := 8) fun _ => (takes_u32 bigEndian).bind (m := 4) (n := 4) fun _ =>
    (takes_i32 bigEndian).map _

theorem takes_readVersion5 (attrs : PerfEventAttributes) : Takes (attrs.readVersion5 bigEndian) 8 :=
  (takes_u32 bigEndian).bind (m := 4) (n := 4) fun _ => (takes_u16 bigEndian).bind (m := 2) (n := 2) fun _ =>
    (takes_u16 bigEndian).map _

theorem takes_skipNewer (attrs : PerfEventAttributes) : Takes attrs.skipNewer (attrs.size - SIZE_VER5).toNat :=
  (takes_skipRawData _).map _

/-- A part that may be there, in front of what depends on the size. -/
theorem takes_when_bind {f g : PerfEventAttributes → Reader UInt8 PerfEventAttributes} {m n : Nat}
    (hf : ∀ attrs, Takes (f attrs) m) (hsize : ∀ attrs s, ((f attrs).run s).1.size = attrs.size) {present : Bool}
    {attrs : PerfEventAttributes} (hg : ∀ attrs', attrs'.size = attrs.size → Takes (g attrs') n) :
    Takes (Reader.when present f attrs >>= g) ((if present then m else 0) + n) :=
  (Takes.when (hf attrs)).bind_run fun s => hg _ (run_when_size hsize present attrs s)

theorem run_read_snd (attrs : PerfEventAttributes) (s : QByteArray) :
    ((attrs.read bigEndian).run s).2 = s.drop (lengthTaken (u32At bigEndian s 4)) := by
  unfold read
  rw [run_bind, (takes_u32 bigEndian).run_snd]
  generalize hsize : u32At bigEndian s 4 = size
  have hrun : ((u32 bigEndian).run (s.drop 4)).1 = size := hsize
  by_cases h : size < SIZE_VER0
  · refine ((takes_u32 bigEndian).bind_run_snd (n := 0) ?_).trans (by rw [List.drop_drop, lengthTaken, if_pos h])
    rw [hrun, if_pos h]
    exact .pure _
  · rw [lengthTaken, if_neg h, show 64 = 4 + 4 + 56 from rfl, Nat.add_assoc, Nat.add_assoc, ← List.drop_drop]
    refine (takes_u32 bigEndian).bind_run_snd ?_
    rw [hrun, if_neg h]
    refine (takes_readVersion0 bigEndian _).bind_run fun _ => ?_
    refine takes_when_bind (fun _ => (takes_u64 bigEndian).map _) (fun _ _ => rfl) fun a₁ h₁ => ?_
    refine takes_when_bind (fun _ => (takes_u64 bigEndian).map _) (fun _ _ => rfl) fun a₂ h₂ => ?_
    refine takes_when_bind (takes_readVersion3 bigEndian) (fun _ _ => rfl) fun a₃ h₃ => ?_
    refine takes_when_bind (fun _ => (takes_u64 bigEndian).map _) (fun _ _ => rfl) fun a₄ h₄ => ?_
    refine takes_when_bind (takes_readVersion5 bigEndian) (fun _ _ => rfl) fun a₅ h₅ => ?_
    have hskip := takes_skipNewer a₅
    rw [h₅, h₄, h₃, h₂, h₁] at hskip
    exact Takes.when hskip

end PerfEventAttributes

namespace PerfRecordAttr

/-- There are as many ids as fit into what the header leaves behind the attribute, modulo 2^32. -/
theorem length_ids (r : PerfRecordAttr) (s : QByteArray) : ((r.read bigEndian).run s).1.ids.length =
    r.ids.length + (r.header.size.toUInt32 - (u32At bigEndian s 4 + PerfEventHeader.fixedLength.toUInt32)).toNat / 8 := by
  simp only [read, run_bind, run_pure, List.length_append, length_times, run_read_size]

/-- The content has room for the attribute, and what is left of it behind the size of the attribute makes up for what the
decoder takes beyond that size; or it has none for an id, or is so far from that that the difference is small again. -/
def Room (content : Nat) (size : UInt32) : Prop :=
  if size.toNat ≤ content then
    content < size.toNat + 8 ∨ PerfEventAttributes.lengthTaken size ≤ size.toNat + (content - size.toNat) % 8
  else 2 ^ 32 + content < size.toNat + 8

theorem le_lengthTaken {size : UInt32} (h : ¬size < SIZE_VER0) : size.toNat ≤ PerfEventAttributes.lengthTaken size := by
  have hpart (version : UInt32) (n : Nat) :
      size.toNat ≤ version.toNat ∨ (if decide (size > version) then n else 0) = n := by
    by_cases hlt : size > version
    · exact .inr (if_pos (decide_eq_true hlt))
    · exact .inl (Nat.not_lt.1 fun h' => hlt (UInt32.lt_iff_toNat_lt.2 h'))
  have hnewer : size.toNat ≤ SIZE_VER5.toNat ∨ (size - SIZE_VER5).toNat = size.toNat - SIZE_VER5.toNat :=
    (Nat.le_or_le SIZE_VER5.toNat size.toNat).symm.imp_right fun hle =>
      UInt32.toNat_sub_of_le _ _ (UInt32.le_iff_toNat_le.2 hle)
  have h₀ := hpart SIZE_VER0 8
  have h₁ := hpart SIZE_VER1 8
  have h₂ := hpart SIZE_VER2 16
  have h₃ := hpart SIZE_VER3 8
  have h₄ := hpart SIZE_VER4 8
  have h₅ := hpart SIZE_VER5 (size - SIZE_VER5).toNat
  rw [PerfEventAttributes.lengthTaken, if_neg h]
  simp only [show SIZE_VER0.toNat = 64 from rfl, show SIZE_VER1.toNat = 72 from rfl, show SIZE_VER2.toNat = 80 from rfl,
    show SIZE_VER3.toNat = 96 from rfl, show SIZE_VER4.toNat = 104 from rfl, show SIZE_VER5.toNat = 112 from rfl] at *
  omega

/-- The ids have room in the content behind the attribute if the sizes leave it. -/
theorem ids_fit_iff {header : PerfEventHeader} {content : Nat} (hsize : header.size.toNat = 8 + content) (size : UInt32) :
    8 * ((header.size.toUInt32 - (size + PerfEventHeader.fixedLength.toUInt32)).toNat / 8) ≤
        content - PerfEventAttributes.lengthTaken size ↔
      Room content size := by
  have hlt := header.size.toNat_lt
  have hlt' := size.toNat_lt
  have hfixed : PerfEventHeader.fixedLength.toNat = 8 := rfl
  have htaken : size.toNat < 64 ∨ size.toNat ≤ PerfEventAttributes.lengthTaken size := by
    by_cases h : size < SIZE_VER0
    · exact .inl (UInt32.lt_iff_toNat_lt.1 h)
    · exact .inr (le_lengthTaken h)
  rw [Room, UInt32.toNat_sub, UInt32.toNat_add, UInt16.toNat_toUInt32, UInt16.toNat_toUInt32, hfixed, hsize]
  generalize PerfEventAttributes.lengthTaken size = taken at htaken
  split <;> omega

end PerfRecordAttr

/-! ## Strings, command lines and event descriptions -/

namespace PerfStringFeature

theorem run_read_snd (value s : QByteArray) :
    ((read bigEndian value).run s).2 = s.drop (4 + lengthTaken (u32At bigEndian s 0)) := by
  refine (takes_u32 bigEndian).bind_run_snd ?_
  rw [show ((u32 bigEndian).run s).1 = u32At bigEndian s 0 from rfl, lengthTaken]
  split
  · refine (takes_skipRawData intMax).bind fun _ => Takes.map _ (Takes.map _ (Takes.take _))
  · exact (takes_readRawData _).map _

end PerfStringFeature

namespace PerfCmdline

/-- Where a part ends that starts at the offset. -/
def partEnd (s : QByteArray) (offset : Nat) : Nat := offset + (4 + lengthTaken (u32At bigEndian s offset))

/-- Where the part of that index starts, if the first one does at `offset`. -/
def partOffset (s : QByteArray) (offset : Nat) : Nat → Nat
  | 0 => offset
  | i + 1 => partOffset s (partEnd bigEndian s offset) i

/-- There are as many parts as are announced, and each is behind the one before. -/
theorem run_readParts (s : QByteArray) : ∀ (numParts : Nat) (stringFeature : QByteArray) (offset : Nat),
    ((readParts bigEndian numParts stringFeature).run (s.drop offset)).1.length = numParts ∧
      ((readParts bigEndian numParts stringFeature).run (s.drop offset)).2 =
        s.drop (partOffset bigEndian s offset numParts)
  | 0, _, _ => ⟨rfl, rfl⟩
  | numParts + 1, stringFeature, offset => by
    have hpart : ((PerfStringFeature.read bigEndian stringFeature).run (s.drop offset)).2 =
        s.drop (partEnd bigEndian s offset) := by
      rw [PerfStringFeature.run_read_snd, List.drop_drop, u32At_drop, partEnd]
    obtain ⟨hlength, hsnd⟩ := run_readParts s numParts
      ((PerfStringFeature.read bigEndian stringFeature).run (s.drop offset)).1 (partEnd bigEndian s offset)
    rw [← hpart] at hlength hsnd
    exact ⟨congrArg (· + 1) hlength, hsnd⟩

/-- There are as many parts as are announced. -/
theorem length_cmdline (c : PerfCmdline) (s : QByteArray) :
    ((c.read bigEndian).run s).1.cmdline.length = c.cmdline.length + (u32At bigEndian s 0).toNat := by
  simp only [read, run_bind, run_pure, List.length_append, (takes_u32 bigEndian).run_snd, run_readParts]
  rfl

end PerfCmdline

namespace PerfEventDesc

/-- Where the number of ids is of an event that starts at the offset. -/
def numIdsOffset (s : QByteArray) (offset : Nat) : Nat :=
  offset + PerfEventAttributes.lengthTaken (u32At bigEndian s (offset + 4))

def numIdsAt (s : QByteArray) (offset : Nat) : UInt32 := u32At bigEndian s (numIdsOffset bigEndian s offset)

/-- Where its ids start: behind its name. -/
def idsOffset (s : QByteArray) (offset : Nat) : Nat :=
  numIdsOffset bigEndian s offset + 4 + (4 + lengthTaken (u32At bigEndian s (numIdsOffset bigEndian s offset + 4)))

/-- Where the event ends: behind its name and its ids. -/
def eventEnd (s : QByteArray) (offset : Nat) : Nat :=
  idsOffset bigEndian s offset + (numIdsAt bigEndian s offset).toNat * 8

/-- Where the event of that index starts, if the first one does at `offset`. -/
def eventOffset (s : QByteArray) (offset : Nat) : Nat → Nat
  | 0 => offset
  | i + 1 => eventOffset s (eventEnd bigEndian s offset) i

theorem run_readEvent (stringFeature s : QByteArray) (offset : Nat) :
    ((readEvent bigEndian stringFeature).run (s.drop offset)).1.ids.length = (numIdsAt bigEndian s offset).toNat ∧
      ((readEvent bigEndian stringFeature).run (s.drop offset)).2 = s.drop (eventEnd bigEndian s offset) := by
  have hattr : ((PerfEventAttributes.read bigEndian {}).run (s.drop offset)).2 =
      s.drop (numIdsOffset bigEndian s offset) := by
    rw [PerfEventAttributes.run_read_snd, List.drop_drop, u32At, List.drop_drop, numIdsOffset, u32At]
  have hnumIds : ((u32 bigEndian).run (s.drop (numIdsOffset bigEndian s offset))).1 = numIdsAt bigEndian s offset := rfl
  have hname : ∀ value, ((PerfStringFeature.read bigEndian value).run
      (s.drop (numIdsOffset bigEndian s offset + 4))).2 = s.drop (numIdsOffset bigEndian s offset + 4 +
        (4 + lengthTaken (u32At bigEndian s (numIdsOffset bigEndian s offset + 4)))) := fun value => by
    rw [PerfStringFeature.run_read_snd, List.drop_drop, u32At, List.drop_drop, Nat.add_zero, u32At]
  simp only [readEvent, run_bind, run_pure, hattr, (takes_u32 bigEndian).run_snd, List.drop_drop, hnumIds, hname,
    length_times, ((takes_u64 bigEndian).times _).run_snd, eventEnd, idsOffset, and_self]

/-- There are as many events as are announced, and each has as many ids as it announces. -/
theorem run_readEvents (s : QByteArray) : ∀ (numEvents : Nat) (stringFeature : QByteArray) (offset : Nat),
    ((readEvents bigEndian numEvents stringFeature).run (s.drop offset)).1.map (·.ids.length) =
      (List.range numEvents).map fun i => (numIdsAt bigEndian s (eventOffset bigEndian s offset i)).toNat
  | 0, _, _ => rfl
  | numEvents + 1, stringFeature, offset => by
    obtain ⟨hids, hend⟩ := run_readEvent bigEndian stringFeature s offset
    simp only [readEvents, run_bind, run_pure, List.map_cons, hids, hend, run_readEvents s numEvents,
      List.range_succ_eq_map, List.map_map]
    rfl

/-- There are as many events as are announced, and each has as many ids as it announces. -/
theorem run_read_ids (e : PerfEventDesc) (s : QByteArray) :
    ((e.read bigEndian).run s).1.eventDescs.map (·.ids.length) = e.eventDescs.map (·.ids.length) ++
      (List.range (u32At bigEndian s 0).toNat).map fun i =>
        (numIdsAt bigEndian s (eventOffset bigEndian s 8 i)).toNat := by
  simp only [read, run_bind, run_pure, (takes_u32 bigEndian).run_snd, List.drop_drop, List.map_append, run_readEvents]
  rfl

end PerfEventDesc

/-! ## Samples -/

namespace PerfRecordSample

/-- The sections in front of the values of counters, all of them of eight bytes. -/
def frontBits : List UInt64 :=
  [SAMPLE_IDENTIFIER, SAMPLE_IP, SAMPLE_TID, SAMPLE_TIME, SAMPLE_ADDR, SAMPLE_ID, SAMPLE_STREAM_ID, SAMPLE_CPU,
    SAMPLE_PERIOD]

def valuesOffset (r : PerfRecordSample) : Nat := (frontBits.map fun bit => if r.sampleId.has bit then 8 else 0).sum

/-- What the decoder takes for a counter in a group. -/
def valueLength (format : UInt64) : Nat := 8 + counterIdLength (format &&& FORMAT_LOST != 0)

/-- The number of counters that is announced: one without a group. -/
def numValues (r : PerfRecordSample) (s : QByteArray) : Nat :=
  if r.sampleId.has SAMPLE_READ then
    if r.readFormat &&& FORMAT_GROUP != 0 then (u64At bigEndian s r.valuesOffset).toNat else 1
  else 0

/-- Where the counters start: behind the times, where these are not between a counter and its id. -/
def countersOffset (r : PerfRecordSample) : Nat :=
  r.valuesOffset + (timesLength r.readFormat + if r.readFormat &&& FORMAT_GROUP != 0 then 8 else 0)

def callchainOffset (r : PerfRecordSample) (s : QByteArray) : Nat :=
  r.valuesOffset + if r.sampleId.has SAMPLE_READ then
    8 + (timesLength r.readFormat + if r.readFormat &&& FORMAT_GROUP != 0 then
      (u64At bigEndian s r.valuesOffset).toNat * valueLength r.readFormat
      else counterIdLength (r.readFormat &&& FORMAT_LOST != 0))
  else 0

def numIps (r : PerfRecordSample) (s : QByteArray) : Nat :=
  if r.sampleId.has SAMPLE_CALLCHAIN then (u64At bigEndian s (r.callchainOffset bigEndian s)).toNat else 0

def rawOffset (r : PerfRecordSample) (s : QByteArray) : Nat :=
  r.callchainOffset bigEndian s +
    if r.sampleId.has SAMPLE_CALLCHAIN then 8 + (u64At bigEndian s (r.callchainOffset bigEndian s)).toNat * 8 else 0

def branchOffset (r : PerfRecordSample) (s : QByteArray) : Nat :=
  r.rawOffset bigEndian s +
    if r.sampleId.has SAMPLE_RAW then 4 + lengthTaken (u32At bigEndian s (r.rawOffset bigEndian s)) else 0

def numBranches (r : PerfRecordSample) (s : QByteArray) : Nat :=
  if r.sampleId.has SAMPLE_BRANCH_STACK then (u64At bigEndian s (r.branchOffset bigEndian s)).toNat else 0

def regsOffset (r : PerfRecordSample) (s : QByteArray) : Nat :=
  r.branchOffset bigEndian s +
    if r.sampleId.has SAMPLE_BRANCH_STACK then 8 + (u64At bigEndian s (r.branchOffset bigEndian s)).toNat * 24 else 0

/-- What the sections without lists leave as it is. -/
def lists (r : PerfRecordSample) : UInt64 × List ReadFormat × List UInt64 × List BranchEntry × UInt64 :=
  (r.readFormat, r.readFormats, r.callchain, r.branchStack, r.registerMask)

theorem run_when_lists {f : PerfRecordSample → Reader UInt8 PerfRecordSample}
    (hf : ∀ r s, ((f r).run s).1.lists = r.lists) (present : Bool) (r : PerfRecordSample) (s : QByteArray) :
    ((Reader.when present f r).run s).1.lists = r.lists := by
  cases present with
  | false => rfl
  | true => exact hf r s

/-- The sections behind the lists. -/
def readBack (has : UInt64 → Bool) (r : PerfRecordSample) : Reader UInt8 PerfRecordSample := do
  let r ← Reader.when (has SAMPLE_REGS_USER) (readRegsUser bigEndian) r
  let r ← Reader.when (has SAMPLE_STACK_USER) (readStackUser bigEndian) r
  let r ← Reader.when (has SAMPLE_WEIGHT) (readWeight bigEndian) r
  let r ← Reader.when (has SAMPLE_DATA_SRC) (readDataSrc bigEndian) r
  Reader.when (has SAMPLE_TRANSACTION) (readTransaction bigEndian) r

/-- The sections from the values of counters on. -/
def readCounted (has : UInt64 → Bool) (r : PerfRecordSample) : Reader UInt8 PerfRecordSample := do
  let r ← Reader.when (has SAMPLE_READ) (readReadFormats bigEndian) r
  let r ← Reader.when (has SAMPLE_CALLCHAIN) (readCallchain bigEndian) r
  let r ← Reader.when (has SAMPLE_RAW) (readRawSection bigEndian) r
  let r ← Reader.when (has SAMPLE_BRANCH_STACK) (readBranchStack bigEndian) r
  readBack bigEndian has r

theorem run_readRegsUser_lists (r : PerfRecordSample) (s : QByteArray) :
    ((readRegsUser bigEndian r).run s).1.lists = r.lists := by
  unfold readRegsUser
  rw [run_bind]
  exact run_when_lists (fun _ _ => rfl) _ _ _

theorem run_readStackUser_lists (r : PerfRecordSample) (s : QByteArray) :
    ((readStackUser bigEndian r).run s).1.lists = r.lists := by
  unfold readStackUser
  rw [run_bind]
  split
  · rfl
  · split <;> rfl

theorem run_readBack_lists (has : UInt64 → Bool) (r : PerfRecordSample) (s : QByteArray) :
    ((readBack bigEndian has r).run s).1.lists = r.lists := by
  unfold readBack
  simp only [run_bind]
  rw [run_when_lists (fun _ _ => rfl), run_when_lists (fun _ _ => rfl), run_when_lists (fun _ _ => rfl),
    run_when_lists (run_readStackUser_lists bigEndian), run_when_lists (run_readRegsUser_lists bigEndian)]

theorem exists_when_bind {f : PerfRecordSample → Reader UInt8 PerfRecordSample} (htakes : ∀ r, Takes (f r) 8)
    (hlists : ∀ r s, ((f r).run s).1.lists = r.lists) (present : Bool) (r : PerfRecordSample) (s : QByteArray) :
    ∃ r', r'.lists = r.lists ∧ ∀ g : PerfRecordSample → Reader UInt8 PerfRecordSample,
      (Reader.when present f r >>= g).run s = (g r').run (s.drop (if present then 8 else 0)) :=
  ⟨_, run_when_lists hlists present r s, fun g => by rw [run_bind, (Takes.when (htakes r)).run_snd]⟩

theorem takes_readSampleId {f : PerfSampleId → Reader UInt8 PerfSampleId} (hf : ∀ s, Takes (f s) 8)
    (r : PerfRecordSample) : Takes (readSampleId f r) 8 := (hf r.sampleId).map _

theorem takes_readTid (s : PerfSampleId) : Takes (s.readTid bigEndian) 8 :=
  (takes_i32 bigEndian).bind (m := 4) (n := 4) fun _ => (takes_i32 bigEndian).map _

theorem takes_readCpu (r : PerfRecordSample) : Takes (readCpu bigEndian r) 8 :=
  (takes_u32 bigEndian).bind (m := 4) (n := 4) fun _ => (takes_u32 bigEndian).map _

theorem exists_front (r : PerfRecordSample) (s : QByteArray) : ∃ r', r'.lists = r.lists ∧
    (r.read bigEndian).run s = (readCounted bigEndian r.sampleId.has r').run (s.drop r.valuesOffset) := by
  have hu64 : ∀ f : UInt64 → PerfRecordSample, Takes (f <$> u64 bigEndian) 8 := fun f => (takes_u64 bigEndian).map f
  have hsampleId : ∀ f : PerfSampleId → UInt64 → PerfSampleId, ∀ r,
      Takes (readSampleId (fun s => f s <$> u64 bigEndian) r) 8 :=
    fun f => takes_readSampleId fun s => (takes_u64 bigEndian).map (f s)
  obtain ⟨r₁, h₁, hrun₁⟩ := exists_when_bind (hsampleId fun s id => { s with id }) (fun _ _ => rfl)
    (r.sampleId.has SAMPLE_IDENTIFIER) r s
  obtain ⟨r₂, h₂, hrun₂⟩ := exists_when_bind (f := readIp bigEndian) (fun _ => hu64 _) (fun _ _ => rfl)
    (r.sampleId.has SAMPLE_IP) r₁ _
  obtain ⟨r₃, h₃, hrun₃⟩ := exists_when_bind (takes_readSampleId (takes_readTid bigEndian)) (fun _ _ => rfl)
    (r.sampleId.has SAMPLE_TID) r₂ _
  obtain ⟨r₄, h₄, hrun₄⟩ := exists_when_bind (hsampleId fun s time => { s with time }) (fun _ _ => rfl)
    (r.sampleId.has SAMPLE_TIME) r₃ _
  obtain ⟨r₅, h₅, hrun₅⟩ := exists_when_bind (f := readAddr bigEndian) (fun _ => hu64 _) (fun _ _ => rfl)
    (r.sampleId.has SAMPLE_ADDR) r₄ _
  obtain ⟨r₆, h₆, hrun₆⟩ := exists_when_bind (hsampleId fun s id => { s with id }) (fun _ _ => rfl)
    (r.sampleId.has SAMPLE_ID) r₅ _
  obtain ⟨r₇, h₇, hrun₇⟩ := exists_when_bind (hsampleId fun s streamId => { s with streamId }) (fun _ _ => rfl)
    (r.sampleId.has SAMPLE_STREAM_ID) r₆ _
  obtain ⟨r₈, h₈, hrun₈⟩ := exists_when_bind (takes_readCpu bigEndian) (fun _ _ => rfl)
    (r.sampleId.has SAMPLE_CPU) r₇ _
  obtain ⟨r₉, h₉, hrun₉⟩ := exists_when_bind (f := readPeriod bigEndian) (fun _ => hu64 _) (fun _ _ => rfl)
    (r.sampleId.has SAMPLE_PERIOD) r₈ _
  refine ⟨r₉, by rw [h₉, h₈, h₇, h₆, h₅, h₄, h₃, h₂, h₁], ?_⟩
  refine (hrun₁ _).trans <| (hrun₂ _).trans <| (hrun₃ _).trans <| (hrun₄ _).trans <| (hrun₅ _).trans <|
    (hrun₆ _).trans <| (hrun₇ _).trans <| (hrun₈ _).trans <| (hrun₉ _).trans ?_
  simp only [List.drop_drop, valuesOffset, frontBits, List.map_cons, List.map_nil, List.sum_cons, List.sum_nil,
    Nat.add_assoc, Nat.add_zero]
  rfl

/-- There are as many values as are announced. -/
theorem run_readReadFormats_lists (r : PerfRecordSample) (s : QByteArray) :
    ((readReadFormats bigEndian r).run s).1.readFormats.length = r.readFormats.length +
      (if r.readFormat &&& FORMAT_GROUP != 0 then (u64At bigEndian s 0).toNat else 1) ∧
    ((readReadFormats bigEndian r).run s).1.callchain = r.callchain ∧
    ((readReadFormats bigEndian r).run s).1.branchStack = r.branchStack ∧
    ((readReadFormats bigEndian r).run s).1.registerMask = r.registerMask := by
  have htimes : ∀ t₁ t₂ : QByteArray, ∀ b₁ b₂ : Bool,
      ((Reader.when b₂ (readTimeRunning bigEndian)
        ((Reader.when b₁ (readTimeEnabled bigEndian) r).run t₁).1).run t₂).1.lists = r.lists := fun t₁ t₂ b₁ b₂ => by
    rw [run_when_lists (fun _ _ => rfl), run_when_lists (fun _ _ => rfl)]
  unfold readReadFormats
  simp only [run_bind]
  split
  · simp only [run_bind, run_pure, List.length_append, length_times]
    exact ⟨congrArg (fun l => l.2.1.length + _) (htimes _ _ _ _), congrArg (fun l => l.2.2.1) (htimes _ _ _ _),
      congrArg (fun l => l.2.2.2.1) (htimes _ _ _ _), congrArg (fun l => l.2.2.2.2) (htimes _ _ _ _)⟩
  · simp only [run_bind, run_pure, List.length_append, List.length_singleton]
    exact ⟨congrArg (fun l => l.2.1.length + 1) (htimes _ _ _ _), congrArg (fun l => l.2.2.1) (htimes _ _ _ _),
      congrArg (fun l => l.2.2.2.1) (htimes _ _ _ _), congrArg (fun l => l.2.2.2.2) (htimes _ _ _ _)⟩

theorem run_readCallchain (r : PerfRecordSample) (s : QByteArray) :
    ((readCallchain bigEndian r).run s).1.callchain.length = r.callchain.length + (u64At bigEndian s 0).toNat ∧
    ((readCallchain bigEndian r).run s).2 = s.drop (8 + (u64At bigEndian s 0).toNat * 8) := by
  refine ⟨?_, (takes_u64 bigEndian).bind_run_snd (((takes_u64 bigEndian).times _).map _)⟩
  simp only [readCallchain, run_bind, run_pure, List.length_append, length_times]
  rfl

theorem run_readRawSection_lists (r : PerfRecordSample) (s : QByteArray) :
    ((readRawSection bigEndian r).run s).1.lists = r.lists := by
  unfold readRawSection
  rw [run_bind]
  split <;> rfl

theorem run_readRawSection_snd (r : PerfRecordSample) (s : QByteArray) :
    ((readRawSection bigEndian r).run s).2 = s.drop (4 + lengthTaken (u32At bigEndian s 0)) := by
  refine (takes_u32 bigEndian).bind_run_snd ?_
  rw [show ((u32 bigEndian).run s).1 = u32At bigEndian s 0 from rfl, lengthTaken]
  split
  · exact (takes_skipRawData intMax).bind fun _ => Takes.map _ (Takes.map _ (Takes.take _))
  · exact (takes_readRawData _).map _

theorem takes_readBranchEntry : Takes (readBranchEntry bigEndian) 24 :=
  (takes_u64 bigEndian).bind (m := 8) (n := 16) fun _ => (takes_u64 bigEndian).bind (m := 8) (n := 8) fun _ =>
    (takes_readRawData 8).map _

theorem run_readBranchStack (r : PerfRecordSample) (s : QByteArray) :
    ((readBranchStack bigEndian r).run s).1.branchStack.length = r.branchStack.length + (u64At bigEndian s 0).toNat ∧
    ((readBranchStack bigEndian r).run s).2 = s.drop (8 + (u64At bigEndian s 0).toNat * 24) := by
  refine ⟨?_, (takes_u64 bigEndian).bind_run_snd (((takes_readBranchEntry bigEndian).times _).map _)⟩
  simp only [readBranchStack, run_bind, run_pure, List.length_append, length_times]
  rfl

section Places

variable (r : PerfRecordSample) (s : QByteArray)

theorem run_when_values {r₁ : PerfRecordSample} (hlists : r₁.lists = r.lists) {x : PerfRecordSample × QByteArray}
    (hx : (Reader.when (r.sampleId.has SAMPLE_READ) (readReadFormats bigEndian) r₁).run (s.drop r.valuesOffset) = x) :
    x.1.readFormats.length = r.readFormats.length + r.numValues bigEndian s ∧ x.1.callchain = r.callchain ∧
      x.1.branchStack = r.branchStack ∧ x.1.registerMask = r.registerMask ∧
      x.2 = s.drop (r.callchainOffset bigEndian s) := by
  have hformat : r₁.readFormat = r.readFormat := congrArg (fun l => l.1) hlists
  have hformats : r₁.readFormats = r.readFormats := congrArg (fun l => l.2.1) hlists
  have hcallchain : r₁.callchain = r.callchain := congrArg (fun l => l.2.2.1) hlists
  have hbranch : r₁.branchStack = r.branchStack := congrArg (fun l => l.2.2.2.1) hlists
  have hmask : r₁.registerMask = r.registerMask := congrArg (fun l => l.2.2.2.2) hlists
  subst hx
  rw [numValues, callchainOffset]
  cases r.sampleId.has SAMPLE_READ with
  | false =>
    rw [if_neg Bool.false_ne_true, if_neg Bool.false_ne_true, Nat.add_zero, Nat.add_zero, when_false, run_pure]
    exact ⟨congrArg List.length hformats, hcallchain, hbranch, hmask, rfl⟩
  | true =>
    obtain ⟨hlength, hsame, hsame', hsame''⟩ := run_readReadFormats_lists bigEndian r₁ (s.drop r.valuesOffset)
    have hsnd := run_readReadFormats_snd bigEndian r₁ (s.drop r.valuesOffset)
    rw [hformat, hformats, u64At_drop] at hlength
    rw [hformat, List.drop_drop] at hsnd
    rw [if_pos rfl, if_pos rfl, when_true]
    exact ⟨hlength, hsame.trans hcallchain, hsame'.trans hbranch, hsame''.trans hmask, hsnd⟩

theorem run_when_callchain {r₂ : PerfRecordSample} {x : PerfRecordSample × QByteArray}
    (hx : (Reader.when (r.sampleId.has SAMPLE_CALLCHAIN) (readCallchain bigEndian) r₂).run
      (s.drop (r.callchainOffset bigEndian s)) = x) :
    x.1.callchain.length = r₂.callchain.length + r.numIps bigEndian s ∧ x.1.readFormats = r₂.readFormats ∧
      x.1.branchStack = r₂.branchStack ∧ x.1.registerMask = r₂.registerMask ∧
      x.2 = s.drop (r.rawOffset bigEndian s) := by
  subst hx
  rw [numIps, rawOffset]
  cases r.sampleId.has SAMPLE_CALLCHAIN with
  | false =>
    rw [if_neg Bool.false_ne_true, if_neg Bool.false_ne_true, Nat.add_zero, Nat.add_zero, when_false, run_pure]
    exact ⟨rfl, rfl, rfl, rfl, rfl⟩
  | true =>
    obtain ⟨hlength, hsnd⟩ := run_readCallchain bigEndian r₂ (s.drop (r.callchainOffset bigEndian s))
    rw [u64At_drop] at hlength
    rw [u64At_drop, List.drop_drop] at hsnd
    rw [if_pos rfl, if_pos rfl, when_true]
    exact ⟨hlength, rfl, rfl, rfl, hsnd⟩

theorem run_when_raw {r₃ : PerfRecordSample} {x : PerfRecordSample × QByteArray}
    (hx : (Reader.when (r.sampleId.has SAMPLE_RAW) (readRawSection bigEndian) r₃).run
      (s.drop (r.rawOffset bigEndian s)) = x) :
    x.1.lists = r₃.lists ∧ x.2 = s.drop (r.branchOffset bigEndian s) := by
  subst hx
  rw [branchOffset]
  cases r.sampleId.has SAMPLE_RAW with
  | false =>
    rw [if_neg Bool.false_ne_true, Nat.add_zero, when_false, run_pure]
    exact ⟨rfl, rfl⟩
  | true =>
    have hsnd := run_readRawSection_snd bigEndian r₃ (s.drop (r.rawOffset bigEndian s))
    rw [u32At_drop, List.drop_drop] at hsnd
    rw [if_pos rfl, when_true]
    exact ⟨run_readRawSection_lists bigEndian r₃ _, hsnd⟩

theorem run_when_branchStack {r₄ : PerfRecordSample} {x : PerfRecordSample × QByteArray}
    (hx : (Reader.when (r.sampleId.has SAMPLE_BRANCH_STACK) (readBranchStack bigEndian) r₄).run
      (s.drop (r.branchOffset bigEndian s)) = x) :
    x.1.branchStack.length = r₄.branchStack.length + r.numBranches bigEndian s ∧
      x.1.readFormats = r₄.readFormats ∧ x.1.callchain = r₄.callchain ∧ x.1.registerMask = r₄.registerMask ∧
      x.2 = s.drop (r.regsOffset bigEndian s) := by
  subst hx
  rw [numBranches, regsOffset]
  cases r.sampleId.has SAMPLE_BRANCH_STACK with
  | false =>
    rw [if_neg Bool.false_ne_true, if_neg Bool.false_ne_true, Nat.add_zero, Nat.add_zero, when_false, run_pure]
    exact ⟨rfl, rfl, rfl, rfl, rfl⟩
  | true =>
    obtain ⟨hlength, hsnd⟩ := run_readBranchStack bigEndian r₄ (s.drop (r.branchOffset bigEndian s))
    rw [u64At_drop] at hlength
    rw [u64At_drop, List.drop_drop] at hsnd
    rw [if_pos rfl, if_pos rfl, when_true]
    exact ⟨hlength, rfl, rfl, rfl, hsnd⟩

/-- The sections in front of the registers have lists as long as is announced, and end where they do. -/
theorem exists_counted : ∃ r₅ : PerfRecordSample,
    (r.read bigEndian).run s = (readBack bigEndian r.sampleId.has r₅).run (s.drop (r.regsOffset bigEndian s)) ∧
      r₅.readFormats.length = r.readFormats.length + r.numValues bigEndian s ∧
      r₅.callchain.length = r.callchain.length + r.numIps bigEndian s ∧
      r₅.branchStack.length = r.branchStack.length + r.numBranches bigEndian s ∧
      r₅.registerMask = r.registerMask := by
  obtain ⟨r₁, hlists, hrun⟩ := exists_front bigEndian r s
  rw [hrun]
  unfold readCounted
  rw [run_bind]
  generalize hx₁ : (Reader.when (r.sampleId.has SAMPLE_READ) (readReadFormats bigEndian) r₁).run
    (s.drop r.valuesOffset) = x₁
  obtain ⟨hvalues, hcallchain₁, hbranch₁, hmask₁, hsnd₁⟩ := run_when_values bigEndian r s hlists hx₁
  rw [hsnd₁, run_bind]
  generalize hx₂ : (Reader.when (r.sampleId.has SAMPLE_CALLCHAIN) (readCallchain bigEndian) x₁.1).run
    (s.drop (r.callchainOffset bigEndian s)) = x₂
  obtain ⟨hcallchain₂, hvalues₂, hbranch₂, hmask₂, hsnd₂⟩ := run_when_callchain bigEndian r s hx₂
  rw [hsnd₂, run_bind]
  generalize hx₃ : (Reader.when (r.sampleId.has SAMPLE_RAW) (readRawSection bigEndian) x₂.1).run
    (s.drop (r.rawOffset bigEndian s)) = x₃
  obtain ⟨hlists₃, hsnd₃⟩ := run_when_raw bigEndian r s hx₃
  rw [hsnd₃, run_bind]
  generalize hx₄ : (Reader.when (r.sampleId.has SAMPLE_BRANCH_STACK) (readBranchStack bigEndian) x₃.1).run
    (s.drop (r.branchOffset bigEndian s)) = x₄
  obtain ⟨hbranch₄, hvalues₄, hcallchain₄, hmask₄, hsnd₄⟩ := run_when_branchStack bigEndian r s hx₄
  have hformats₃ := congrArg (fun l => l.2.1) hlists₃
  have hcallchain₃ := congrArg (fun l => l.2.2.1) hlists₃
  have hbranch₃ := congrArg (fun l => l.2.2.2.1) hlists₃
  have hmask₃ := congrArg (fun l => l.2.2.2.2) hlists₃
  simp only [lists] at hformats₃ hcallchain₃ hbranch₃ hmask₃
  refine ⟨x₄.1, by rw [hsnd₄], ?_, ?_, ?_, ?_⟩
  · rw [hvalues₄, hformats₃, hvalues₂, hvalues]
  · rw [hcallchain₄, hcallchain₃, hcallchain₂, hcallchain₁]
  · rw [hbranch₄, hbranch₃, hbranch₂, hbranch₁]
  · rw [hmask₄, hmask₃, hmask₂, hmask₁]

/-- **The lists of a sample are as long as is announced.** -/
theorem run_read_lengths :
    ((r.read bigEndian).run s).1.readFormats.length = r.readFormats.length + r.numValues bigEndian s ∧
      ((r.read bigEndian).run s).1.callchain.length = r.callchain.length + r.numIps bigEndian s ∧
      ((r.read bigEndian).run s).1.branchStack.length = r.branchStack.length + r.numBranches bigEndian s := by
  obtain ⟨r₅, hrun, hvalues, hips, hbranches, -⟩ := exists_counted bigEndian r s
  have hback := run_readBack_lists bigEndian r.sampleId.has r₅ (s.drop (r.regsOffset bigEndian s))
  have hformats := congrArg (fun l => l.2.1) hback
  have hcallchain := congrArg (fun l => l.2.2.1) hback
  have hbranch := congrArg (fun l => l.2.2.2.1) hback
  simp only [lists] at hformats hcallchain hbranch
  rw [hrun, hformats, hcallchain, hbranch]
  exact ⟨hvalues, hips, hbranches⟩

end Places

end PerfRecordSample

/-! ## Lists that fit -/

/-- The lists of a sample have at most as many elements as the content has room for behind where they start. -/
def PerfRecordSample.ListsFit (r : PerfRecordSample) (content rest : QByteArray) (result : PerfRecordSample) : Prop :=
  result.readFormats.length * valueLength r.readFormat ≤ content.length - r.countersOffset ∧
    result.callchain.length * 8 ≤ content.length - (r.callchainOffset bigEndian (content ++ rest) + 8) ∧
    result.branchStack.length * 24 ≤ content.length - (r.branchOffset bigEndian (content ++ rest) + 8)

/-- The numbers in front of them leave that room. -/
def PerfRecordSample.NumbersFit (r : PerfRecordSample) (content rest : QByteArray) : Prop :=
  r.numValues bigEndian (content ++ rest) * valueLength r.readFormat ≤ content.length - r.countersOffset ∧
    r.numIps bigEndian (content ++ rest) * 8 ≤ content.length - (r.callchainOffset bigEndian (content ++ rest) + 8) ∧
    r.numBranches bigEndian (content ++ rest) * 24 ≤ content.length - (r.branchOffset bigEndian (content ++ rest) + 8)

/-- Each part of a command line ends in the section. -/
def PerfCmdline.ListFits (content rest : QByteArray) (numParts : Nat) : Prop :=
  ∀ i < numParts, partEnd bigEndian (content ++ rest) (partOffset bigEndian (content ++ rest) 4 i) ≤ content.length

/-- Each event of event descriptions ends in the section, behind as many ids as `numIds` says. -/
def PerfEventDesc.ListsFit (content rest : QByteArray) (numIds : List Nat) : Prop :=
  ∀ i n, numIds[i]? = some n →
    idsOffset bigEndian (content ++ rest) (eventOffset bigEndian (content ++ rest) 8 i) + n * 8 ≤ content.length

/-- Each event that is announced ends in the section, with the ids that it announces. -/
def PerfEventDesc.NumbersFit (content rest : QByteArray) : Prop :=
  ∀ i < (u32At bigEndian (content ++ rest) 0).toNat,
    eventEnd bigEndian (content ++ rest) (eventOffset bigEndian (content ++ rest) 8 i) ≤ content.length

theorem PerfRecordSample.listsFit_iff (header : PerfEventHeader) (attrs : PerfEventAttributes)
    (content rest : QByteArray) :
    (create header attrs).ListsFit bigEndian content rest
        (((create header attrs).read bigEndian).run (content ++ rest)).1 ↔
      (create header attrs).NumbersFit bigEndian content rest := by
  obtain ⟨hvalues, hips, hbranches⟩ := run_read_lengths bigEndian (create header attrs) (content ++ rest)
  rw [ListsFit, hvalues, hips, hbranches, NumbersFit]
  simp only [create, List.length_nil, Nat.zero_add]

theorem PerfEventDesc.listsFit_iff (content rest : QByteArray) :
    ListsFit bigEndian content rest (((read bigEndian {}).run (content ++ rest)).1.eventDescs.map (·.ids.length)) ↔
      NumbersFit bigEndian content rest := by
  rw [run_read_ids, List.map_nil, List.nil_append, ListsFit, NumbersFit]
  refine forall_congr' fun i => ?_
  by_cases hi : i < (u32At bigEndian (content ++ rest) 0).toNat
  · have hget : ((List.range (u32At bigEndian (content ++ rest) 0).toNat).map fun i => (numIdsAt bigEndian
        (content ++ rest) (eventOffset bigEndian (content ++ rest) 8 i)).toNat)[i]? = some (numIdsAt bigEndian
        (content ++ rest) (eventOffset bigEndian (content ++ rest) 8 i)).toNat := by
      rw [List.getElem?_map, List.getElem?_range hi, Option.map_some]
    constructor
    · exact fun h _ => h _ hget
    · intro h n hn
      cases Option.some.inj (hget.symm.trans hn)
      exact h hi
  · refine iff_of_true (fun n hn => ?_) fun h => absurd h hi
    have hlt := (List.getElem?_eq_some_iff.1 hn).1
    rw [List.length_map, List.length_range] at hlt
    exact absurd hlt hi

/-- **The lists fit if and only if the numbers of their elements do**, and the ids of an attribute if and only if the
attribute does. -/
theorem lists_fit_iff :
    (∀ (header : PerfEventHeader) (attrs : PerfEventAttributes) (content rest : QByteArray),
      (PerfRecordSample.create header attrs).ListsFit bigEndian content rest
          (((PerfRecordSample.create header attrs).read bigEndian).run (content ++ rest)).1 ↔
        (PerfRecordSample.create header attrs).NumbersFit bigEndian content rest) ∧
    (∀ (header : PerfEventHeader) (attrs : PerfEventAttributes) (content rest : QByteArray),
      header.size.toNat = 8 + content.length →
      (8 * (((PerfRecordAttr.create header attrs.sampleType attrs.sampleIdAll).read bigEndian).run
          (content ++ rest)).1.ids.length ≤
          content.length - PerfEventAttributes.lengthTaken (u32At bigEndian (content ++ rest) 4) ↔
        PerfRecordAttr.Room content.length (u32At bigEndian (content ++ rest) 4))) ∧
    (∀ content rest : QByteArray, PerfCmdline.ListFits bigEndian content rest
        ((PerfCmdline.read bigEndian {}).run (content ++ rest)).1.cmdline.length ↔
      PerfCmdline.ListFits bigEndian content rest (u32At bigEndian (content ++ rest) 0).toNat) ∧
    (∀ content rest : QByteArray, PerfEventDesc.ListsFit bigEndian content rest
        (((PerfEventDesc.read bigEndian {}).run (content ++ rest)).1.eventDescs.map (·.ids.length)) ↔
      PerfEventDesc.NumbersFit bigEndian content rest) := by
  refine ⟨PerfRecordSample.listsFit_iff bigEndian, fun header attrs content rest hsize => ?_, fun content rest => ?_,
    PerfEventDesc.listsFit_iff bigEndian⟩
  · rw [PerfRecordAttr.length_ids]
    simp only [PerfRecordAttr.create, List.length_nil, Nat.zero_add]
    exact PerfRecordAttr.ids_fit_iff hsize _
  · rw [PerfCmdline.length_cmdline, List.length_nil, Nat.zero_add]

/-- The content of a record that has room for the type and the size of an attribute, and no more. -/
def shortAttribute : QByteArray := [0, 0, 0, 0, 64, 0, 0, 0]

/-- It is followed by more ids than it could hold. -/
theorem shortAttribute_ids :
    ¬8 * (((PerfRecordAttr.create ⟨64, 0, 16⟩ (default : PerfEventAttributes).sampleType
        (default : PerfEventAttributes).sampleIdAll).read false).run (shortAttribute ++ [])).1.ids.length ≤
      shortAttribute.length - PerfEventAttributes.lengthTaken (u32At false (shortAttribute ++ []) 4) := by
  have hiff := (lists_fit_iff false).2.1 ⟨64, 0, 16⟩ default shortAttribute [] rfl
  have hsize : u32At false (shortAttribute ++ []) 4 = 64 := by decide
  rw [hsize] at hiff ⊢
  rw [hiff, PerfRecordAttr.Room, if_neg (by decide)]
  decide

/-- A callchain of an address that has not been written. -/
theorem not_lists_fit : ¬∀ (bigEndian : Bool) (header : PerfEventHeader) (attrs : PerfEventAttributes)
    (content rest : QByteArray),
    (PerfRecordSample.create header attrs).ListsFit bigEndian content rest
      (((PerfRecordSample.create header attrs).read bigEndian).run (content ++ rest)).1 := by
  intro h
  have hfit := (h false ⟨9, 0, 16⟩ { sampleType := SAMPLE_CALLCHAIN } [1, 0, 0, 0, 0, 0, 0, 0] []).2.1
  exact absurd hfit (by decide)

end PerfParser
