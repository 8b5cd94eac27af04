import PerfParser.Decode
/-!
# Layouts — records as `perfdata.h` documents them, and back

The layouts are translated from the comments of `perfdata.h`, not from the decoders.  Every record other than a sample
has its `struct sample_id` behind its own fields, and where the length of a name is between them it has to follow from
the length of everything else.
-/
namespace PerfParser

open PerfEventAttributes Reader

variable (bigEndian : Bool)

/-! ## Numbers -/

namespace Layout

def u16 (n : UInt16) : QByteArray := encode bigEndian 2 n.toNat

def u32 (n : UInt32) : QByteArray := encode bigEndian 4 n.toNat

def u64 (n : UInt64) : QByteArray := encode bigEndian 8 n.toNat

def i32 (n : Int32) : QByteArray := u32 bigEndian n.toUInt32

@[simp] theorem length_u16 (n : UInt16) : (u16 bigEndian n).length = 2 := length_encode bigEndian 2 n.toNat

@[simp] theorem length_u32 (n : UInt32) : (u32 bigEndian n).length = 4 := length_encode bigEndian 4 n.toNat

@[simp] theorem length_u64 (n : UInt64) : (u64 bigEndian n).length = 8 := length_encode bigEndian 8 n.toNat

@[simp] theorem length_i32 (n : Int32) : (i32 bigEndian n).length = 4 := length_u32 bigEndian n.toUInt32

theorem reads_u16 (n : UInt16) : Reads (QDataStream.u16 bigEndian) (u16 bigEndian n) n := by
  have h := (Reads.number bigEndian (k := 2) n.toNat_lt).map UInt16.ofNat
  rwa [UInt16.ofNat_toNat] at h

theorem reads_u32 (n : UInt32) : Reads (QDataStream.u32 bigEndian) (u32 bigEndian n) n := by
  have h := (Reads.number bigEndian (k := 4) n.toNat_lt).map UInt32.ofNat
  rwa [UInt32.ofNat_toNat] at h

theorem reads_u64 (n : UInt64) : Reads (QDataStream.u64 bigEndian) (u64 bigEndian n) n := by
  have h := (Reads.number bigEndian (k := 8) n.toNat_lt).map UInt64.ofNat
  rwa [UInt64.ofNat_toNat] at h

theorem reads_flatMap_u64 (l : List UInt64) :
    Reads ((QDataStream.u64 bigEndian).times l.length) (l.flatMap (u64 bigEndian)) l :=
  (Reads.times (reads_u64 bigEndian) l).of_eq rfl (List.map_id' l).symm

theorem reads_i32 (n : Int32) : Reads (QDataStream.i32 bigEndian) (i32 bigEndian n) n := by
  have h := (reads_u32 bigEndian n.toUInt32).map UInt32.toInt32
  rwa [Int32.toInt32_toUInt32] at h

/-- The header of an event. -/
def header (h : PerfEventHeader) : QByteArray := u32 bigEndian h.type ++ (u16 bigEndian h.misc ++ u16 bigEndian h.size)

@[simp] theorem length_header (h : PerfEventHeader) : (header bigEndian h).length = 8 := by simp [header]

theorem reads_header (h : PerfEventHeader) : Reads (PerfEventHeader.read bigEndian) (header bigEndian h) h := by
  refine Reads.of_eq ((reads_u32 bigEndian h.type).bind <| (reads_u16 bigEndian h.misc).bind <|
    (reads_u16 bigEndian h.size).bind <| .pure _) ?_ rfl
  rw [header, List.append_nil]

end Layout

/-! ## The sample id behind a record -/

/-- A sample id stands behind a record.  The bit `SAMPLE_ID_ALL` of a sample type, which no documented bit of a sample
takes, is the decoder's own flag for it. -/
def hasTrailer (sampleType : UInt64) (sampleIdAll : Bool) : Bool := sampleIdAll || sampleType &&& SAMPLE_ID_ALL != 0

/-- `struct sample_id`, without the condition on the attributes. -/
def Layout.sampleId (sampleType : UInt64) (s : PerfSampleId) : QByteArray :=
  (if sampleType &&& SAMPLE_TID != 0 then i32 bigEndian s.pid ++ i32 bigEndian s.tid else [])
    ++ (if sampleType &&& SAMPLE_TIME != 0 then u64 bigEndian s.time else [])
    ++ (if sampleType &&& SAMPLE_ID != 0 then u64 bigEndian s.id else [])
    ++ (if sampleType &&& SAMPLE_STREAM_ID != 0 then u64 bigEndian s.streamId else [])
    ++ (if sampleType &&& SAMPLE_CPU != 0 then u32 bigEndian s.cpu ++ u32 bigEndian s.res else [])
    ++ (if sampleType &&& SAMPLE_IDENTIFIER != 0 then u64 bigEndian s.id else [])

/-- The sample id behind a record, where there is one. -/
def Layout.trailer (sampleType : UInt64) (sampleIdAll : Bool) (s : PerfSampleId) : QByteArray :=
  if hasTrailer sampleType sampleIdAll then sampleId bigEndian sampleType s else []

namespace PerfSampleId

/-- The fields of `s` that a sample id behind a record has.  An id that is only there as `SAMPLE_IDENTIFIER` is not
among them. -/
def behind (sampleType : UInt64) (sampleIdAll : Bool) (s : PerfSampleId) : PerfSampleId :=
  let has := fun bit => hasTrailer sampleType sampleIdAll && sampleType &&& bit != 0
  { pid := if has SAMPLE_TID then s.pid else 0
    tid := if has SAMPLE_TID then s.tid else 0
    time := if has SAMPLE_TIME then s.time else 0
    id := if has SAMPLE_ID then s.id else 0
    streamId := if has SAMPLE_STREAM_ID then s.streamId else 0
    cpu := if has SAMPLE_CPU then s.cpu else 0
    res := if has SAMPLE_CPU then s.res else 0
    sampleType := (create sampleType sampleIdAll).sampleType }

theorem or_and_mask (a b mask : UInt64) : (a ||| b) &&& mask = (a &&& mask) ||| (b &&& mask) :=
  UInt64.eq_of_toBitVec_eq BitVec.and_or_distrib_right

/-- The flag that `sampleIdAll` adds to the sample type is none of the bits that stand for a field. -/
theorem has_create (sampleType : UInt64) (sampleIdAll : Bool) (bit : UInt64) (hbit : SAMPLE_ID_ALL &&& bit = 0) :
    (create sampleType sampleIdAll).has bit = (sampleType &&& bit != 0) := by
  unfold has create
  cases sampleIdAll with
  | false => simp
  | true => simp [or_and_mask, hbit]

theorem has_create_idAll (sampleType : UInt64) (sampleIdAll : Bool) :
    (create sampleType sampleIdAll).has SAMPLE_ID_ALL = hasTrailer sampleType sampleIdAll := by
  unfold has create hasTrailer
  cases sampleIdAll with
  | false => simp
  | true =>
    simp only [if_pos, Bool.true_or, bne_iff_ne, ne_eq]
    rw [or_and_mask]
    intro h
    have hor := UInt64.or_eq_zero_iff.1 h
    exact absurd hor.2 (by decide)

/-! ## Its sections -/

open Layout

variable (s : PerfSampleId) (present : Bool)

theorem reads_readTid (pid tid : Int32) :
    Reads (when present (readTid bigEndian) s) (if present then i32 bigEndian pid ++ i32 bigEndian tid else [])
      { s with pid := if present then pid else s.pid, tid := if present then tid else s.tid } :=
  .when (g := fun b => { s with pid := if b then pid else s.pid, tid := if b then tid else s.tid })
    ((reads_i32 bigEndian pid).bind ((reads_i32 bigEndian tid).map _)) rfl

theorem reads_readTime (time : UInt64) :
    Reads (when present (readTime bigEndian) s) (if present then u64 bigEndian time else [])
      { s with time := if present then time else s.time } :=
  .when (g := fun b => { s with time := if b then time else s.time }) ((reads_u64 bigEndian time).map _) rfl

theorem reads_readId (id : UInt64) :
    Reads (when present (readId bigEndian) s) (if present then u64 bigEndian id else [])
      { s with id := if present then id else s.id } :=
  .when (g := fun b => { s with id := if b then id else s.id }) ((reads_u64 bigEndian id).map _) rfl

theorem reads_readStreamId (streamId : UInt64) :
    Reads (when present (readStreamId bigEndian) s) (if present then u64 bigEndian streamId else [])
      { s with streamId := if present then streamId else s.streamId } :=
  .when (g := fun b => { s with streamId := if b then streamId else s.streamId })
    ((reads_u64 bigEndian streamId).map _) rfl

theorem reads_readCpu (cpu res : UInt32) :
    Reads (when present (readCpu bigEndian) s) (if present then u32 bigEndian cpu ++ u32 bigEndian res else [])
      { s with cpu := if present then cpu else s.cpu, res := if present then res else s.res } :=
  .when (g := fun b => { s with cpu := if b then cpu else s.cpu, res := if b then res else s.res })
    ((reads_u32 bigEndian cpu).bind ((reads_u32 bigEndian res).map _)) rfl

theorem reads_skipDuplicateId (id : UInt64) :
    Reads (when present skipDuplicateId s) (if present then u64 bigEndian id else []) s := by
  have h := (Reads.skip (u64 bigEndian id)).map (fun _ => s)
  rw [length_u64] at h
  exact .when (g := fun _ => s) h rfl

/-- The decoder of a sample id takes the documented trailer, and keeps all of it but the duplicate of the id. -/
theorem reads_read (sampleType : UInt64) (sampleIdAll : Bool) :
    Reads ((create sampleType sampleIdAll).read bigEndian) (trailer bigEndian sampleType sampleIdAll s)
      (s.behind sampleType sampleIdAll) := by
  unfold read
  dsimp only
  rw [has_create_idAll, has_create _ _ SAMPLE_TID (by decide), has_create _ _ SAMPLE_TIME (by decide),
    has_create _ _ SAMPLE_ID (by decide), has_create _ _ SAMPLE_STREAM_ID (by decide),
    has_create _ _ SAMPLE_CPU (by decide), has_create _ _ SAMPLE_IDENTIFIER (by decide)]
  cases hall : hasTrailer sampleType sampleIdAll with
  | false =>
    rw [when_false]
    exact (Reads.pure _).of_eq (by simp [trailer, hall]) (by simp [behind, hall, create])
  | true =>
    rw [when_true]
    refine Reads.of_eq ((reads_readTid bigEndian _ _ s.pid s.tid).bind <|
      (reads_readTime bigEndian _ _ s.time).bind <|
      (reads_readId bigEndian _ _ s.id).bind <|
      (reads_readStreamId bigEndian _ _ s.streamId).bind <|
      (reads_readCpu bigEndian _ _ s.cpu s.res).bind <|
      reads_skipDuplicateId bigEndian _ _ s.id) ?_ ?_
    · simp [trailer, hall, sampleId]
    · simp [behind, hall, create]

theorem fixedLength_create (sampleType : UInt64) (sampleIdAll : Bool) :
    (create sampleType sampleIdAll).fixedLength.toNat = (trailer bigEndian sampleType sampleIdAll s).length := by
  unfold fixedLength trailer sampleId
  rw [has_create_idAll, has_create _ _ SAMPLE_TID (by decide), has_create _ _ SAMPLE_TIME (by decide),
    has_create _ _ SAMPLE_ID (by decide), has_create _ _ SAMPLE_STREAM_ID (by decide),
    has_create _ _ SAMPLE_CPU (by decide), has_create _ _ SAMPLE_IDENTIFIER (by decide)]
  simp only [apply_ite List.length, List.length_append, length_u32, length_i32, length_u64, List.length_nil]
  generalize hasTrailer sampleType sampleIdAll = all, (sampleType &&& SAMPLE_TID != 0) = tid,
    (sampleType &&& SAMPLE_TIME != 0) = time, (sampleType &&& SAMPLE_ID != 0) = id,
    (sampleType &&& SAMPLE_STREAM_ID != 0) = stream, (sampleType &&& SAMPLE_CPU != 0) = cpu,
    (sampleType &&& SAMPLE_IDENTIFIER != 0) = identifier
  revert all tid time id stream cpu identifier
  decide

theorem fixedLength_le : s.fixedLength.toNat ≤ 48 := by
  unfold fixedLength
  generalize s.has SAMPLE_ID_ALL = all, s.has SAMPLE_TID = tid, s.has SAMPLE_TIME = time, s.has SAMPLE_ID = id,
    s.has SAMPLE_STREAM_ID = stream, s.has SAMPLE_CPU = cpu, s.has SAMPLE_IDENTIFIER = identifier
  revert all tid time id stream cpu identifier
  decide

/-- A fixed length that adds the numbers of a record to its header and its sample id. -/
theorem toNat_add_fixedLength {n : UInt16} (hn : n.toNat ≤ 100) :
    (n + s.fixedLength).toNat = n.toNat + s.fixedLength.toNat := by
  have hs := s.fixedLength_le
  rw [UInt16.toNat_add]
  exact Nat.mod_eq_of_lt (by omega)

end PerfSampleId

/-! ## The records -/

/-- The length that `header.size` leaves for a name. -/
theorem toNat_size_sub {size fixedLength : UInt16} {name fixed : Nat} (hsize : size.toNat = name + fixed)
    (hfixed : fixedLength.toNat = fixed) : (size - fixedLength).toNat = name := by
  rw [UInt16.toNat_sub_of_le _ _ (UInt16.le_iff_toNat_le.2 (by omega)), hsize, hfixed]
  omega

theorem truncateAtNull_padded {name : QByteArray} (hname : 0 ∉ name) (padding : Nat) :
    truncateAtNull (name ++ List.replicate padding 0) = name := by
  unfold truncateAtNull
  have hall : ∀ b ∈ name, decide (b ≠ 0) = true := fun b hb => by
    simpa using fun h : b = 0 => hname (h ▸ hb)
  rw [List.takeWhile_append_of_pos hall]
  cases padding <;> simp [List.replicate_succ]

open Layout

/-- A record as its decoder leaves it: the header it was given, and what the trailer has of the sample id. -/
def PerfRecord.decoded (header : PerfEventHeader) (sampleType : UInt64) (sampleIdAll : Bool) (r : PerfRecord) :
    PerfRecord where
  header := header
  sampleId := r.sampleId.behind sampleType sampleIdAll

/-- With a header whose size counts it, the decoder takes exactly this content and makes the record of it. -/
def RoundTrips {ρ : Type} (read : PerfEventHeader → Reader UInt8 ρ) (content : QByteArray)
    (record : PerfEventHeader → ρ) : Prop :=
  ∀ header : PerfEventHeader, header.size.toNat = 8 + content.length → Reads (read header) content (record header)

variable (sampleType : UInt64) (sampleIdAll : Bool) (padding : Nat)

namespace PerfRecordMmap

/-- `PERF_RECORD_MMAP`. -/
def layout (r : PerfRecordMmap) : QByteArray :=
  i32 bigEndian r.pid ++ i32 bigEndian r.tid ++ u64 bigEndian r.addr ++ u64 bigEndian r.len ++ u64 bigEndian r.pgoff
    ++ (r.filename ++ List.replicate padding 0) ++ trailer bigEndian sampleType sampleIdAll r.sampleId

theorem reads_readNumbers (r₀ r : PerfRecordMmap) :
    Reads (r₀.readNumbers bigEndian)
      (i32 bigEndian r.pid ++ (i32 bigEndian r.tid ++ (u64 bigEndian r.addr ++ (u64 bigEndian r.len
        ++ u64 bigEndian r.pgoff))))
      { r₀ with pid := r.pid, tid := r.tid, addr := r.addr, len := r.len, pgoff := r.pgoff } :=
  (reads_i32 bigEndian r.pid).bind <| (reads_i32 bigEndian r.tid).bind <| (reads_u64 bigEndian r.addr).bind <|
    (reads_u64 bigEndian r.len).bind <| (reads_u64 bigEndian r.pgoff).map _

theorem reads_readFilename (r₀ : PerfRecordMmap) {filename : QByteArray} (hname : 0 ∉ filename)
    {filenameLength : UInt16} (hlen : filenameLength.toNat = (filename ++ List.replicate padding 0).length) :
    Reads (r₀.readFilename filenameLength) (filename ++ List.replicate padding 0) { r₀ with filename } := by
  have h := (Reads.raw 0 (filename ++ List.replicate padding 0)).map
    (fun bytes => { r₀ with filename := truncateAtNull bytes })
  rw [← hlen, truncateAtNull_padded hname] at h
  exact h

theorem reads_readSampleId (r₀ : PerfRecordMmap) (hid : r₀.sampleId = PerfSampleId.create sampleType sampleIdAll)
    (s : PerfSampleId) :
    Reads (r₀.readSampleId bigEndian) (trailer bigEndian sampleType sampleIdAll s)
      { r₀ with sampleId := s.behind sampleType sampleIdAll } := by
  unfold readSampleId
  rw [hid]
  exact (s.reads_read bigEndian sampleType sampleIdAll).map _

theorem length_layout (r : PerfRecordMmap) :
    (r.layout bigEndian sampleType sampleIdAll padding).length
      = 32 + (r.filename ++ List.replicate padding 0).length
        + (trailer bigEndian sampleType sampleIdAll r.sampleId).length := by
  simp only [layout, List.length_append, length_i32, length_u64]

theorem roundTrips (r : PerfRecordMmap) (hname : 0 ∉ r.filename) :
    RoundTrips (fun header => (create header sampleType sampleIdAll).read bigEndian)
      (r.layout bigEndian sampleType sampleIdAll padding)
      (fun header => { r with toPerfRecord := r.toPerfRecord.decoded header sampleType sampleIdAll }) := by
  intro header hsize
  have htrailer := r.sampleId.fixedLength_create bigEndian sampleType sampleIdAll
  have hfixed : (create header sampleType sampleIdAll).fixedLength.toNat
      = 40 + (trailer bigEndian sampleType sampleIdAll r.sampleId).length := by
    rw [← htrailer]
    exact PerfSampleId.toNat_add_fixedLength _ (by decide)
  have hlen : (header.size - (create header sampleType sampleIdAll).fixedLength).toNat
      = (r.filename ++ List.replicate padding 0).length :=
    toNat_size_sub (by rw [hsize, length_layout]; omega) hfixed
  refine Reads.of_eq ((reads_readNumbers bigEndian _ r).bind <| (reads_readFilename padding _ hname hlen).bind <|
    reads_readSampleId bigEndian sampleType sampleIdAll _ rfl r.sampleId) ?_ rfl
  simp [layout]

end PerfRecordMmap

namespace PerfRecordMmap2

theorem fixedLength_eq (r : PerfRecordMmap2) : r.fixedLength = 72 + r.sampleId.fixedLength := by
  unfold fixedLength PerfRecordMmap.fixedLength PerfEventHeader.fixedLength
  grind

/-- `PERF_RECORD_MMAP2`. -/
def layout (r : PerfRecordMmap2) : QByteArray :=
  i32 bigEndian r.pid ++ i32 bigEndian r.tid ++ u64 bigEndian r.addr ++ u64 bigEndian r.len ++ u64 bigEndian r.pgoff
    ++ u32 bigEndian r.maj ++ u32 bigEndian r.min ++ u64 bigEndian r.ino ++ u64 bigEndian r.inoGeneration
    ++ u32 bigEndian r.prot ++ u32 bigEndian r.flags
    ++ (r.filename ++ List.replicate padding 0) ++ trailer bigEndian sampleType sampleIdAll r.sampleId

theorem reads_readNumbers (r₀ r : PerfRecordMmap2) :
    Reads (r₀.readNumbers bigEndian)
      ((i32 bigEndian r.pid ++ (i32 bigEndian r.tid ++ (u64 bigEndian r.addr ++ (u64 bigEndian r.len
        ++ u64 bigEndian r.pgoff)))) ++ (u32 bigEndian r.maj ++ (u32 bigEndian r.min ++ (u64 bigEndian r.ino
        ++ (u64 bigEndian r.inoGeneration ++ (u32 bigEndian r.prot ++ u32 bigEndian r.flags))))))
      { r₀ with
        pid := r.pid, tid := r.tid, addr := r.addr, len := r.len, pgoff := r.pgoff, maj := r.maj, min := r.min,
        ino := r.ino, inoGeneration := r.inoGeneration, prot := r.prot, flags := r.flags } :=
  (r₀.toPerfRecordMmap.reads_readNumbers bigEndian r.toPerfRecordMmap).bind <|
    (reads_u32 bigEndian r.maj).bind <| (reads_u32 bigEndian r.min).bind <| (reads_u64 bigEndian r.ino).bind <|
    (reads_u64 bigEndian r.inoGeneration).bind <| (reads_u32 bigEndian r.prot).bind <|
    (reads_u32 bigEndian r.flags).map _

theorem length_layout (r : PerfRecordMmap2) :
    (r.layout bigEndian sampleType sampleIdAll padding).length
      = 64 + (r.filename ++ List.replicate padding 0).length
        + (trailer bigEndian sampleType sampleIdAll r.sampleId).length := by
  simp only [layout, List.length_append, length_i32, length_u32, length_u64]

theorem roundTrips (r : PerfRecordMmap2) (hname : 0 ∉ r.filename) :
    RoundTrips (fun header => (create header sampleType sampleIdAll).read bigEndian)
      (r.layout bigEndian sampleType sampleIdAll padding)
      (fun header => { r with toPerfRecord := r.toPerfRecord.decoded header sampleType sampleIdAll }) := by
  intro header hsize
  have htrailer := r.sampleId.fixedLength_create bigEndian sampleType sampleIdAll
  have hfixed : (create header sampleType sampleIdAll).fixedLength.toNat
      = 72 + (trailer bigEndian sampleType sampleIdAll r.sampleId).length := by
    rw [← htrailer, fixedLength_eq]
    exact PerfSampleId.toNat_add_fixedLength _ (by decide)
  have hlen : (header.size - (create header sampleType sampleIdAll).fixedLength).toNat
      = (r.filename ++ List.replicate padding 0).length :=
    toNat_size_sub (by rw [hsize, length_layout]; omega) hfixed
  refine Reads.of_eq ((reads_readNumbers bigEndian _ r).bind <|
    (PerfRecordMmap.reads_readFilename padding _ hname hlen).bind <|
    (PerfRecordMmap.reads_readSampleId bigEndian sampleType sampleIdAll _ rfl r.sampleId).map _) ?_ rfl
  simp [layout]

end PerfRecordMmap2

namespace PerfRecordComm

/-- `PERF_RECORD_COMM`. -/
def layout (r : PerfRecordComm) : QByteArray :=
  i32 bigEndian r.pid ++ i32 bigEndian r.tid
    ++ (r.comm ++ List.replicate padding 0) ++ trailer bigEndian sampleType sampleIdAll r.sampleId

theorem length_layout (r : PerfRecordComm) :
    (r.layout bigEndian sampleType sampleIdAll padding).length
      = 8 + (r.comm ++ List.replicate padding 0).length
        + (trailer bigEndian sampleType sampleIdAll r.sampleId).length := by
  simp only [layout, List.length_append, length_i32]

theorem fixedLength_eq (r : PerfRecordComm) : r.fixedLength = 16 + r.sampleId.fixedLength := by
  unfold fixedLength PerfRecord.fixedLength PerfEventHeader.fixedLength
  grind

theorem fixedLength_create (header : PerfEventHeader) (s : PerfSampleId) :
    (create header sampleType sampleIdAll).fixedLength.toNat
      = 16 + (trailer bigEndian sampleType sampleIdAll s).length := by
  rw [fixedLength_eq, ← s.fixedLength_create bigEndian sampleType sampleIdAll]
  exact PerfSampleId.toNat_add_fixedLength _ (by decide)

theorem roundTrips (r : PerfRecordComm) (hname : 0 ∉ r.comm) :
    RoundTrips (fun header => (create header sampleType sampleIdAll).read bigEndian)
      (r.layout bigEndian sampleType sampleIdAll padding)
      (fun header => { r with toPerfRecord := r.toPerfRecord.decoded header sampleType sampleIdAll }) := by
  intro header hsize
  have hlen : (header.size - (create header sampleType sampleIdAll).fixedLength).toNat
      = (r.comm ++ List.replicate padding 0).length :=
    toNat_size_sub (by rw [hsize, length_layout]; omega)
      (fixedLength_create bigEndian sampleType sampleIdAll header r.sampleId)
  have hcomm := Reads.raw 0 (r.comm ++ List.replicate padding 0)
  rw [← hlen] at hcomm
  refine Reads.of_eq ((reads_i32 bigEndian r.pid).bind <| (reads_i32 bigEndian r.tid).bind <| hcomm.bind <|
    (r.sampleId.reads_read bigEndian sampleType sampleIdAll).map _) ?_ ?_
  · simp [layout]
  · rw [truncateAtNull_padded hname]
    rfl

end PerfRecordComm

namespace PerfRecordLost

/-- `PERF_RECORD_LOST`. -/
def layout (r : PerfRecordLost) : QByteArray :=
  u64 bigEndian r.id ++ u64 bigEndian r.lost ++ trailer bigEndian sampleType sampleIdAll r.sampleId

theorem roundTrips (r : PerfRecordLost) :
    RoundTrips (fun header => (create header sampleType sampleIdAll).read bigEndian)
      (r.layout bigEndian sampleType sampleIdAll)
      (fun header => { r with toPerfRecord := r.toPerfRecord.decoded header sampleType sampleIdAll }) := by
  intro header _
  refine Reads.of_eq ((reads_u64 bigEndian r.id).bind <| (reads_u64 bigEndian r.lost).bind <|
    (r.sampleId.reads_read bigEndian sampleType sampleIdAll).map _) ?_ rfl
  simp [layout]

end PerfRecordLost

namespace PerfRecordFork

/-- `PERF_RECORD_FORK` and `PERF_RECORD_EXIT`. -/
def layout (r : PerfRecordFork) : QByteArray :=
  i32 bigEndian r.childPid ++ i32 bigEndian r.parentPid ++ i32 bigEndian r.childTid ++ i32 bigEndian r.parentTid
    ++ u64 bigEndian r.ownTime ++ trailer bigEndian sampleType sampleIdAll r.sampleId

theorem roundTrips (r : PerfRecordFork) :
    RoundTrips (fun header => (create header sampleType sampleIdAll).read bigEndian)
      (r.layout bigEndian sampleType sampleIdAll)
      (fun header => { r with toPerfRecord := r.toPerfRecord.decoded header sampleType sampleIdAll }) := by
  intro header _
  refine Reads.of_eq ((reads_i32 bigEndian r.childPid).bind <| (reads_i32 bigEndian r.parentPid).bind <|
    (reads_i32 bigEndian r.childTid).bind <| (reads_i32 bigEndian r.parentTid).bind <|
    (reads_u64 bigEndian r.ownTime).bind <| (r.sampleId.reads_read bigEndian sampleType sampleIdAll).map _) ?_ rfl
  simp [layout]

end PerfRecordFork

namespace PerfRecordContextSwitch

/-- `PERF_RECORD_SWITCH`. -/
def layout (r : PerfRecordContextSwitch) : QByteArray := trailer bigEndian sampleType sampleIdAll r.sampleId

/-- `PERF_RECORD_SWITCH_CPU_WIDE`. -/
def layoutCpuWide (r : PerfRecordContextSwitch) : QByteArray :=
  i32 bigEndian r.nextPrevPid ++ i32 bigEndian r.nextPrevTid ++ trailer bigEndian sampleType sampleIdAll r.sampleId

theorem roundTrips (r : PerfRecordContextSwitch) :
    RoundTrips (fun header => (create header sampleType sampleIdAll).read bigEndian)
      (r.layout bigEndian sampleType sampleIdAll)
      (fun header => { toPerfRecord := r.toPerfRecord.decoded header sampleType sampleIdAll }) :=
  fun _ _ => (r.sampleId.reads_read bigEndian sampleType sampleIdAll).map _

theorem roundTrips_cpuWide (r : PerfRecordContextSwitch) :
    RoundTrips (fun header => (create header sampleType sampleIdAll).readCpuWide bigEndian)
      (r.layoutCpuWide bigEndian sampleType sampleIdAll)
      (fun header => { r with toPerfRecord := r.toPerfRecord.decoded header sampleType sampleIdAll }) := by
  intro header _
  refine Reads.of_eq ((reads_i32 bigEndian r.nextPrevPid).bind <| (reads_i32 bigEndian r.nextPrevTid).bind <|
    (r.sampleId.reads_read bigEndian sampleType sampleIdAll).map _) ?_ rfl
  simp [layoutCpuWide]

end PerfRecordContextSwitch

/-- Every record other than a sample, in its documented layout, is decoded to what was encoded, from exactly its content.
A name is padded with any number of NULs; `PERF_SAMPLE_IDENTIFIER` is passed over as a duplicate of the id. -/
theorem records_roundTrip :
    (∀ (r : PerfRecordMmap) (padding : Nat), 0 ∉ r.filename →
      RoundTrips (fun header => (PerfRecordMmap.create header sampleType sampleIdAll).read bigEndian)
        (r.layout bigEndian sampleType sampleIdAll padding)
        (fun header => { r with toPerfRecord := r.toPerfRecord.decoded header sampleType sampleIdAll }))
      ∧ (∀ (r : PerfRecordMmap2) (padding : Nat), 0 ∉ r.filename →
        RoundTrips (fun header => (PerfRecordMmap2.create header sampleType sampleIdAll).read bigEndian)
          (r.layout bigEndian sampleType sampleIdAll padding)
          (fun header => { r with toPerfRecord := r.toPerfRecord.decoded header sampleType sampleIdAll }))
      ∧ (∀ (r : PerfRecordComm) (padding : Nat), 0 ∉ r.comm →
        RoundTrips (fun header => (PerfRecordComm.create header sampleType sampleIdAll).read bigEndian)
          (r.layout bigEndian sampleType sampleIdAll padding)
          (fun header => { r with toPerfRecord := r.toPerfRecord.decoded header sampleType sampleIdAll }))
      ∧ (∀ r : PerfRecordLost,
        RoundTrips (fun header => (PerfRecordLost.create header sampleType sampleIdAll).read bigEndian)
          (r.layout bigEndian sampleType sampleIdAll)
          (fun header => { r with toPerfRecord := r.toPerfRecord.decoded header sampleType sampleIdAll }))
      ∧ (∀ r : PerfRecordFork,
        RoundTrips (fun header => (PerfRecordFork.create header sampleType sampleIdAll).read bigEndian)
          (r.layout bigEndian sampleType sampleIdAll)
          (fun header => { r with toPerfRecord := r.toPerfRecord.decoded header sampleType sampleIdAll }))
      ∧ (∀ r : PerfRecordContextSwitch,
        RoundTrips (fun header => (PerfRecordContextSwitch.create header sampleType sampleIdAll).read bigEndian)
          (r.layout bigEndian sampleType sampleIdAll)
          (fun header => { toPerfRecord := r.toPerfRecord.decoded header sampleType sampleIdAll }))
      ∧ ∀ r : PerfRecordContextSwitch,
        RoundTrips (fun header => (PerfRecordContextSwitch.create header sampleType sampleIdAll).readCpuWide bigEndian)
          (r.layoutCpuWide bigEndian sampleType sampleIdAll)
          (fun header => { r with toPerfRecord := r.toPerfRecord.decoded header sampleType sampleIdAll }) := by
  refine ⟨fun r padding hname => ?_, fun r padding hname => ?_, fun r padding hname => ?_, fun r => ?_, fun r => ?_,
    fun r => ?_, fun r => ?_⟩
  · exact r.roundTrips bigEndian sampleType sampleIdAll padding hname
  · exact r.roundTrips bigEndian sampleType sampleIdAll padding hname
  · exact r.roundTrips bigEndian sampleType sampleIdAll padding hname
  · exact r.roundTrips bigEndian sampleType sampleIdAll
  · exact r.roundTrips bigEndian sampleType sampleIdAll
  · exact r.roundTrips bigEndian sampleType sampleIdAll
  · exact r.roundTrips_cpuWide bigEndian sampleType sampleIdAll

/-- A `COMM` record with the time behind it, padded to eight bytes. -/
theorem records_roundTrip_comm :
    Reads ((PerfRecordComm.create { type := 3, size := 32 } SAMPLE_TIME true).read false)
      [5, 0, 0, 0, 6, 0, 0, 0, 115, 104, 0, 0, 0, 0, 0, 0, 9, 0, 0, 0, 0, 0, 0, 0]
      { header := { type := 3, size := 32 },
        sampleId := { time := 9, sampleType := SAMPLE_TIME ||| SAMPLE_ID_ALL },
        pid := 5, tid := 6, comm := [115, 104] } :=
  (records_roundTrip false SAMPLE_TIME true).2.2.1
    { sampleId := { time := 9 }, pid := 5, tid := 6, comm := [115, 104] } 6 (by decide)
    { type := 3, size := 32 } (by decide)

/-- The id of a `LOST` record that only has `PERF_SAMPLE_IDENTIFIER` is lost, and with the bit of `SAMPLE_ID_ALL` in the
sample type a record without a trailer takes eight bytes of the next one for its time. -/
theorem lost_identifier_dropped :
    (((PerfRecordLost.create { type := 2, size := 32 } SAMPLE_IDENTIFIER true).read false).run
        (u64 false 1 ++ u64 false 2 ++ u64 false 7)).1.sampleId.id = 0
      ∧ (((PerfRecordLost.create { type := 2, size := 24 } (SAMPLE_TIME ||| SAMPLE_ID_ALL) false).read false).run
        (u64 false 1 ++ u64 false 2 ++ u64 false 3)).2 = [] := by
  decide

end PerfParser
