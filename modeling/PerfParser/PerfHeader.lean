import PerfParser.Decode
/-!
# PerfHeader — the header in front of the events (`perfheader.cpp`)

`read` is called whenever something arrives.  It reads the first sixteen bytes once they are there, and the rest of the
header of a file once that is there, possibly in a later call.  Every call has a stream of its own, and only the call
that reads the magic sets the byte order of its stream.
-/
namespace PerfParser

open QDataStream Reader

structure PerfFileSection where
  offset : Int64 := 0
  size : Int64 := 0
deriving DecidableEq, Repr, Inhabited

structure PerfHeader where
  magic : Int64 := 0
  size : Int64 := 0
  attrSize : Int64 := 0
  attrs : PerfFileSection := {}
  data : PerfFileSection := {}
  eventTypes : PerfFileSection := {}
  features : List UInt64 := [0, 0, 0, 0]
deriving DecidableEq, Repr, Inhabited

def QDataStream.i64 (bigEndian : Bool) : Reader UInt8 Int64 := UInt64.toInt64 <$> u64 bigEndian

def PerfFileSection.read (bigEndian : Bool) : Reader UInt8 PerfFileSection := do
  let offset ← i64 bigEndian
  let size ← i64 bigEndian
  pure { offset, size }

namespace PerfHeader

def magicSame : Int64 := 0x32454c4946524550

def magicSwitched : Int64 := 0x50455246494c4532

def BUILD_ID : Nat := 2
def HOSTNAME : Nat := 3
def CMDLINE : Nat := 11

def pipeHeaderFixedLength : Nat := 16

def fileHeaderFixedLength : Nat := pipeHeaderFixedLength + 8 + 3 * 16 + 4 * 8

/-- `byteOrder`.  The magic was read in the default byte order of a stream, which is big-endian. -/
def bigEndian (h : PerfHeader) : Bool := h.magic == magicSame

def setFeature (h : PerfHeader) (feature : Nat) : PerfHeader :=
  { h with features := h.features.modify (feature / 64) fun word =>
      word ||| (1 : UInt64) <<< UInt64.ofNat (feature % 64) }

def hasFeature (h : PerfHeader) (feature : Nat) : Bool :=
  h.features.getD (feature / 64) 0 &&& (1 : UInt64) <<< UInt64.ofNat (feature % 64) != 0

/-- The two halves of a word of features, swapped. -/
def swapHalves (word : UInt64) : UInt64 := word <<< 32 ||| word >>> 32

def readFields (bigEndian : Bool) (h : PerfHeader) : Reader UInt8 PerfHeader := do
  let attrSize ← i64 bigEndian
  let attrs ← PerfFileSection.read bigEndian
  let data ← PerfFileSection.read bigEndian
  let eventTypes ← PerfFileSection.read bigEndian
  let features ← (u64 bigEndian).times 4
  pure { h with attrSize, attrs, data, eventTypes, features }

/-- Every file has a host name or a command line among its features.  Where a switched one has not, its words were
written as halves, or are of no use. -/
def fixFeatures (h : PerfHeader) : PerfHeader :=
  if h.magic = magicSwitched ∧ ¬h.hasFeature HOSTNAME ∧ ¬h.hasFeature CMDLINE then
    let h := { h with features := h.features.map swapHalves }
    if ¬h.hasFeature HOSTNAME ∧ ¬h.hasFeature CMDLINE then
      setFeature { h with features := List.replicate 4 0 } BUILD_ID
    else h
  else h

inductive Signal
  | finished | error
deriving DecidableEq, Repr

/-- The header, and what its device still has to read. -/
structure Reading where
  header : PerfHeader
  unread : QByteArray
deriving DecidableEq, Repr

/-- The device is no sequential one and has less than `length`. -/
def tooSmall (fileSize : Option Int) (length : Int) : Bool :=
  match fileSize with
  | none => false
  | some size => size < length

/-- The rest of `read`, with the magic and the size there. -/
def readFile (fileSize : Option Int) (bigEndian : Bool) (r : Reading) : Option Signal × Reading :=
  if r.header.size.toInt < pipeHeaderFixedLength then (some .error, r)
  else if r.header.size.toInt > pipeHeaderFixedLength then
    if tooSmall fileSize fileHeaderFixedLength then (some .error, r)
    else if r.unread.length < fileHeaderFixedLength - pipeHeaderFixedLength then (none, r)
    else
      let (header, unread) := (readFields bigEndian r.header).run r.unread
      let header := header.fixFeatures
      if tooSmall fileSize (header.data.offset + header.data.size).toInt then (some .error, ⟨header, unread⟩)
      else if header.size.toInt > fileHeaderFixedLength then
        if header.size.toInt > intMax then (some .error, ⟨header, unread⟩)
        else
          let (_, unread) := (skipRawData (header.size.toInt - fileHeaderFixedLength)).run unread
          (some .finished, ⟨header, unread⟩)
      else (some .finished, ⟨header, unread⟩)
  -- pipe header
  else (some .finished, r)

/-- `PerfHeader::read`, with the signal it emits. -/
def read (fileSize : Option Int) (r : Reading) : Option Signal × Reading :=
  if r.header.size = 0 then
    if tooSmall fileSize pipeHeaderFixedLength then (some .error, r)
    else if r.unread.length < pipeHeaderFixedLength then (none, r)
    else
      let (magic, unread) := (i64 true).run r.unread
      let header := { r.header with magic }
      if magic ≠ magicSame ∧ magic ≠ magicSwitched then (some .error, ⟨header, unread⟩)
      else
        let (size, unread) := (i64 header.bigEndian).run unread
        readFile fileSize header.bigEndian ⟨{ header with size }, unread⟩
  else readFile fileSize true r

/-- A chunk arrives on a sequential device.  Once a signal is emitted nothing calls `read` any more. -/
def feed : Option Signal × Reading → QByteArray → Option Signal × Reading
  | (none, r), chunk => read none ⟨r.header, r.unread ++ chunk⟩
  | (some s, r), chunk => (some s, ⟨r.header, r.unread ++ chunk⟩)

/-- What a header reports: its byte order, the size of attributes and where they are, where the data are, and its
features. -/
def reported (h : PerfHeader) : Bool × Int64 × PerfFileSection × PerfFileSection × List UInt64 :=
  (h.bigEndian, h.attrSize, h.attrs, h.data, h.features)

/-! ## One call -/

/-- The header that the first sixteen bytes make. -/
def opening (bytes : QByteArray) : PerfHeader :=
  let header : PerfHeader := { magic := ((i64 true).run bytes).1 }
  { header with size := ((i64 header.bigEndian).run (bytes.drop 8)).1 }

/-- The header that the bytes behind the first sixteen complete, read in that byte order. -/
def complete (bigEndian : Bool) (h : PerfHeader) (bytes : QByteArray) : PerfHeader :=
  ((readFields bigEndian h).run bytes).1.fixFeatures

theorem takes_i64 (bigEndian : Bool) : Takes (i64 bigEndian) 8 := ((Takes.number bigEndian 8).map _).map _

theorem takes_readFields (bigEndian : Bool) (h : PerfHeader) : Takes (readFields bigEndian h) 88 := by
  have hsection : Takes (PerfFileSection.read bigEndian) 16 :=
    (takes_i64 bigEndian).bind fun _ => (takes_i64 bigEndian).map _
  have hfeatures := ((Takes.number bigEndian 8).map UInt64.ofNat).times 4
  exact (takes_i64 bigEndian).bind (n := 80) fun _ => hsection.bind (n := 64) fun _ => hsection.bind (n := 48) fun _ =>
    hsection.bind (n := 32) fun _ => hfeatures.map _

theorem run_i64_append (bigEndian : Bool) {bytes : QByteArray} (h : 8 ≤ bytes.length) (more : QByteArray) :
    ((i64 bigEndian).run (bytes ++ more)).1 = ((i64 bigEndian).run bytes).1 := by
  rw [((takes_i64 bigEndian).run_append h more).1]

theorem opening_append {bytes : QByteArray} (h : 16 ≤ bytes.length) (more : QByteArray) :
    opening (bytes ++ more) = opening bytes := by
  have hsize (bigEndian : Bool) :
      ((i64 bigEndian).run ((bytes ++ more).drop 8)).1 = ((i64 bigEndian).run (bytes.drop 8)).1 := by
    rw [List.drop_append_of_le_length (by omega), run_i64_append bigEndian (by rw [List.length_drop]; omega)]
  unfold opening
  simp only [run_i64_append true (show 8 ≤ bytes.length by omega) more, hsize]

theorem complete_append (bigEndian : Bool) (header : PerfHeader) {bytes : QByteArray} (h : 88 ≤ bytes.length)
    (more : QByteArray) : complete bigEndian header (bytes ++ more) = complete bigEndian header bytes := by
  unfold complete
  rw [((takes_readFields bigEndian header).run_append h more).1]

@[simp] theorem tooSmall_none (length : Int) : tooSmall none length = false := rfl

theorem read_opening {bytes : QByteArray} (h : 16 ≤ bytes.length)
    (hmagic : (opening bytes).magic = magicSame ∨ (opening bytes).magic = magicSwitched) :
    read none ⟨{}, bytes⟩ = readFile none (opening bytes).bigEndian ⟨opening bytes, bytes.drop 16⟩ := by
  have hdrop : (bytes.drop 8).drop 8 = bytes.drop 16 := List.drop_drop
  have hpipe : ¬bytes.length < pipeHeaderFixedLength := Nat.not_lt.2 h
  have hgood : ¬((opening bytes).magic ≠ magicSame ∧ (opening bytes).magic ≠ magicSwitched) :=
    fun hbad => hmagic.elim hbad.1 hbad.2
  unfold read
  simp only
  rw [if_pos trivial, tooSmall_none, if_neg Bool.false_ne_true, if_neg hpipe, ← hdrop]
  exact if_neg hgood

variable {header : PerfHeader} {bigEndian : Bool} {unread : QByteArray}

theorem readFile_short (hsize : 16 < header.size.toInt) (h : unread.length < 88) :
    readFile none bigEndian ⟨header, unread⟩ = (none, ⟨header, unread⟩) := by
  have hpipe : ¬header.size.toInt < (pipeHeaderFixedLength : Int) := Int.not_lt.2 (Int.le_of_lt hsize)
  have hfile : header.size.toInt > (pipeHeaderFixedLength : Int) := hsize
  have hshort : unread.length < fileHeaderFixedLength - pipeHeaderFixedLength := h
  unfold readFile
  simp only
  rw [if_neg hpipe, if_pos hfile, tooSmall_none, if_neg Bool.false_ne_true, if_pos hshort]

theorem readFile_complete (bigEndian : Bool) (hsize : 16 < header.size.toInt) (h : 88 ≤ unread.length) :
    ∃ s rest, readFile none bigEndian ⟨header, unread⟩ = (some s, ⟨complete bigEndian header unread, rest⟩) := by
  have hpipe : ¬header.size.toInt < (pipeHeaderFixedLength : Int) := Int.not_lt.2 (Int.le_of_lt hsize)
  have hfile : header.size.toInt > (pipeHeaderFixedLength : Int) := hsize
  have hthere : ¬unread.length < fileHeaderFixedLength - pipeHeaderFixedLength := Nat.not_lt.2 h
  unfold readFile
  simp only
  rw [if_neg hpipe, if_pos hfile, tooSmall_none, if_neg Bool.false_ne_true, if_neg hthere, tooSmall_none,
    if_neg Bool.false_ne_true]
  split
  · split
    · exact ⟨.error, _, rfl⟩
    · exact ⟨.finished, _, rfl⟩
  · exact ⟨.finished, _, rfl⟩

/-! ## All the calls -/

theorem foldl_feed_some (s : Signal) : ∀ (chunks : List QByteArray) (r : Reading),
    (chunks.foldl feed (some s, r)).2.header = r.header
  | [], _ => rfl
  | chunk :: chunks, r => foldl_feed_some s chunks ⟨r.header, r.unread ++ chunk⟩

/-- Calls that come after the one that read the magic. -/
theorem foldl_feed_waiting (hsize : 16 < header.size.toInt) : ∀ (chunks : List QByteArray) (unread : QByteArray),
    unread.length < 88 → 88 ≤ (unread ++ chunks.flatten).length →
      (chunks.foldl feed (none, ⟨header, unread⟩)).2.header = complete true header (unread ++ chunks.flatten)
  | [], unread, hshort, hlen => by
    rw [List.flatten_nil, List.append_nil] at hlen
    omega
  | chunk :: chunks, unread, hshort, hlen => by
    have hne : header.size ≠ 0 := fun h0 => by
      rw [h0] at hsize
      exact absurd hsize (by decide)
    have hread : feed (none, ⟨header, unread⟩) chunk = readFile none true ⟨header, unread ++ chunk⟩ := if_neg hne
    rw [List.flatten_cons, ← List.append_assoc] at hlen ⊢
    rw [List.foldl_cons, hread]
    by_cases h : (unread ++ chunk).length < 88
    · rw [readFile_short hsize h]
      exact foldl_feed_waiting hsize chunks (unread ++ chunk) h hlen
    · obtain ⟨s, rest, hfull⟩ := readFile_complete true hsize (Nat.le_of_not_lt h)
      rw [hfull, foldl_feed_some, complete_append true header (Nat.le_of_not_lt h)]

/-- How much has arrived at the first call that finds sixteen bytes. -/
def arrived : Nat → List QByteArray → Nat
  | n, [] => n
  | n, chunk :: chunks => if 16 ≤ n + chunk.length then n + chunk.length else arrived (n + chunk.length) chunks

/-- What has to be there by then for the header to be read in its own byte order. -/
theorem foldl_feed_header {bytes : QByteArray} (hbytes : 104 ≤ bytes.length)
    (hmagic : (opening bytes).magic = magicSame ∨ (opening bytes).magic = magicSwitched)
    (hsize : 16 < (opening bytes).size.toInt) : ∀ (chunks : List QByteArray) (unread : QByteArray),
    unread.length < 16 → unread ++ chunks.flatten = bytes →
      (chunks.foldl feed (none, ⟨{}, unread⟩)).2.header
        = complete (if 104 ≤ arrived unread.length chunks then (opening bytes).bigEndian else true) (opening bytes)
          (bytes.drop 16)
  | [], unread, hshort, hall => by
    rw [List.flatten_nil, List.append_nil] at hall
    rw [hall] at hshort
    omega
  | chunk :: chunks, unread, hshort, hall => by
    rw [List.flatten_cons, ← List.append_assoc] at hall
    rw [List.foldl_cons, arrived, ← List.length_append]
    by_cases h : 16 ≤ (unread ++ chunk).length
    · rw [if_pos h]
      have hopening : opening (unread ++ chunk) = opening bytes := by rw [← hall, opening_append h]
      have hread : feed (none, ⟨{}, unread⟩) chunk
          = readFile none (opening bytes).bigEndian ⟨opening bytes, (unread ++ chunk).drop 16⟩ := by
        rw [← hopening] at hmagic ⊢
        exact read_opening h hmagic
      have hdrop : bytes.drop 16 = (unread ++ chunk).drop 16 ++ chunks.flatten := by
        rw [← hall, List.drop_append_of_le_length h]
      rw [hread, hdrop]
      by_cases hfirst : 104 ≤ (unread ++ chunk).length
      · rw [if_pos hfirst]
        obtain ⟨s, rest, hfull⟩ := readFile_complete (opening bytes).bigEndian hsize
          (show 88 ≤ ((unread ++ chunk).drop 16).length by rw [List.length_drop]; omega)
        rw [hfull, foldl_feed_some, complete_append _ _ (by rw [List.length_drop]; omega)]
      · rw [if_neg hfirst, readFile_short hsize (by rw [List.length_drop]; omega)]
        refine foldl_feed_waiting hsize chunks _ (by rw [List.length_drop]; omega) ?_
        rw [← hdrop, List.length_drop]
        omega
    · have hread : feed (none, ⟨{}, unread⟩) chunk = (none, ⟨{}, unread ++ chunk⟩) := by
        show read none ⟨{}, unread ++ chunk⟩ = _
        exact (if_pos rfl).trans ((if_neg Bool.false_ne_true).trans (if_pos (Nat.lt_of_not_le h)))
      rw [hread, if_neg h]
      exact foldl_feed_header hbytes hmagic hsize chunks (unread ++ chunk) (Nat.lt_of_not_le h) hall

/-- **A header that arrives in chunks reports what it would report at once, if and only if** it is big-endian, or is all
there at the first call that finds sixteen bytes, or reads the same in both byte orders. -/
theorem foldl_feed_reported_iff (chunks : List QByteArray) (hbytes : 104 ≤ chunks.flatten.length)
    (hmagic : (opening chunks.flatten).magic = magicSame ∨ (opening chunks.flatten).magic = magicSwitched)
    (hsize : 16 < (opening chunks.flatten).size.toInt) :
    (chunks.foldl feed (none, ⟨{}, []⟩)).2.header.reported = (feed (none, ⟨{}, []⟩) chunks.flatten).2.header.reported
      ↔ (opening chunks.flatten).magic = magicSame ∨ 104 ≤ arrived 0 chunks
        ∨ (complete true (opening chunks.flatten) (chunks.flatten.drop 16)).reported
          = (complete false (opening chunks.flatten) (chunks.flatten.drop 16)).reported := by
  have hchunks := foldl_feed_header hbytes hmagic hsize chunks [] (by decide) rfl
  have honce := foldl_feed_header hbytes hmagic hsize [chunks.flatten] [] (by decide) (by simp)
  have hall : 104 ≤ arrived ([] : QByteArray).length [chunks.flatten] := by
    unfold arrived
    rw [List.length_nil, Nat.zero_add, if_pos (by omega)]
    exact hbytes
  rw [if_pos hall] at honce
  have hsingle : (feed (none, ⟨{}, []⟩) chunks.flatten).2.header = _ := honce
  rw [hchunks, hsingle, List.length_nil]
  by_cases hsame : (opening chunks.flatten).magic = magicSame
  · have hbig : (opening chunks.flatten).bigEndian = true := beq_iff_eq.2 hsame
    rw [hbig, ite_self]
    exact ⟨fun _ => .inl hsame, fun _ => rfl⟩
  · have hlittle : (opening chunks.flatten).bigEndian = false := beq_false_of_ne hsame
    rw [hlittle]
    by_cases hfirst : 104 ≤ arrived 0 chunks
    · rw [if_pos hfirst]
      exact ⟨fun _ => .inr (.inl hfirst), fun _ => rfl⟩
    · rw [if_neg hfirst]
      exact ⟨fun h => .inr (.inr h), fun h => (h.resolve_left hsame).resolve_left hfirst⟩

/-- The header of a little-endian file: attributes of 136 bytes at 104, data at 240, and a host name. -/
def littleEndianHeader : QByteArray :=
  [0x50, 0x45, 0x52, 0x46, 0x49, 0x4c, 0x45, 0x32, 104, 0, 0, 0, 0, 0, 0, 0, 136, 0, 0, 0, 0, 0, 0, 0,
    104, 0, 0, 0, 0, 0, 0, 0, 136, 0, 0, 0, 0, 0, 0, 0, 240, 0, 0, 0, 0, 0, 0, 0, 80, 0, 0, 0, 0, 0, 0, 0]
    ++ List.replicate 16 0 ++ 8 :: List.replicate 31 0

theorem foldl_feed_reported_tenth :
    let chunks := [littleEndianHeader.take 10, littleEndianHeader.drop 10]
    (chunks.foldl feed (none, ⟨{}, []⟩)).2.header.reported = (feed (none, ⟨{}, []⟩) chunks.flatten).2.header.reported
      ↔ (opening chunks.flatten).magic = magicSame ∨ 104 ≤ arrived 0 chunks
        ∨ (complete true (opening chunks.flatten) (chunks.flatten.drop 16)).reported
          = (complete false (opening chunks.flatten) (chunks.flatten.drop 16)).reported :=
  foldl_feed_reported_iff [littleEndianHeader.take 10, littleEndianHeader.drop 10] (by decide) (by decide) (by decide)

/-- Sixteen bytes, and then the rest: the size of the attributes comes out with its bytes swapped. -/
theorem feed_sixteenth :
    let late := (feed (feed (none, ⟨{}, []⟩) (littleEndianHeader.take 16)) (littleEndianHeader.drop 16)).2.header
    (feed (none, ⟨{}, []⟩) littleEndianHeader).2.header.attrSize = 136 ∧ late.bigEndian = false
      ∧ late.attrSize = -0x7800000000000000 := by
  decide

end PerfHeader
end PerfParser
