import PerfParser.FileEvents
import PerfParser.FileAttributes
import PerfParser.Registers
import PerfParser.TracingData
/-!
# Application — from the header to the exit code (`main.cpp`)

`main` reads a file or a stream.  A stream of events is parsed as it arrives.  A file that arrives as a stream is written
to a buffer file, with zeros for its header, and read from there when the stream closes.  `QCoreApplication::exit` only
asks the event loop to end, and the last code asked for is that of the program: where the attributes or the features of a
file cannot be read, its data are parsed nevertheless.

The loop over the build ids of a file may never end.  A stream that has closed leads to an exit code unless it is such a
file (`runStream_exits`), a file unless it is one or nothing is behind its header (`runFile_stuck_iff`).
-/
namespace PerfParser

open Loop QDataStream Reader
open PerfHeader (Feature)

namespace PerfRegisterInfo

def archByName (name : QByteArray) : Option Architecture :=
  let same (s : String) := name = QByteArray.ofString s
  let startsWith (s : String) := QByteArray.ofString s <+: name
  if same "aarch64" ∨ same "arm64" then some .ARCH_AARCH64
  else if startsWith "arm" then some .ARCH_ARM
  else if startsWith "powerpc" then some .ARCH_POWERPC
  else if startsWith "s390" then some .ARCH_S390
  else if startsWith "sh" then some .ARCH_SH
  else if startsWith "sparc" then some .ARCH_SPARC
  else if startsWith "x86" ∨ same "i386" ∨ same "i486" ∨ same "i586" ∨ same "i686" ∨ same "i786" ∨ same "amd64" then
    some .ARCH_X86
  else if startsWith "mips" then some .ARCH_MIPS
  else none

end PerfRegisterInfo

open PerfRegisterInfo (archByName)

def PerfHeader.isPipe (h : PerfHeader) : Bool := h.size.toInt = pipeHeaderFixedLength

def PerfCompressed.PERF_COMP_ZSTD : UInt32 := 1

/-- What `PerfData::setCompressed` returns. -/
def PerfCompressed.accepted (compressed : PerfCompressed) : Bool :=
  compressed.version = 0 && compressed.type = PERF_COMP_ZSTD && compressed.mmapLen != 0

inductive ErrorCodes
  | NoError | TcpSocketError | CannotOpen | BadMagic | HeaderError | DataError | MissingData | InvalidOption
  | BufferingError
deriving DecidableEq, Repr

/-- What a run rests on besides its input: the decompressor, how deep compressed records are nested and how long the loop
over the build ids goes on, the orders in which hashes are iterated, and `--arch`. -/
structure Platform (δ : Type) where
  zstd : Zstd δ
  depth : Nat
  fuel : Nat
  iterateSections : List (Feature × PerfFileSection) → List (Feature × PerfFileSection)
  iterateSections_perm : ∀ l, (iterateSections l).Perm l
  iterateAttributes : List (UInt64 × PerfEventAttributes) → List (UInt64 × PerfEventAttributes)
  iterateAttributes_perm : ∀ l, (iterateAttributes l).Perm l
  arch : QByteArray

/-- The host with so many rounds for the loop over the build ids. -/
def Platform.withFuel {δ : Type} (P : Platform δ) (fuel : Nat) : Platform δ := { P with fuel }

/-- The objects of `main`, and the exit code that was last asked for. -/
structure Application (δ : Type) where
  header : PerfHeader
  features : PerfFeatureSections
  compressed : PerfCompressed := {}
  data : PerfData δ := {}
  exitCode : Option ErrorCodes := none
deriving DecidableEq, Repr

namespace Application

variable {δ : Type} (P : Platform δ)

/-- What the parser is given. -/
def env (a : Application δ) : Env δ where
  bigEndian := a.header.bigEndian
  hasCompressed := a.header.hasFeature Feature.compressed.number
  mmapLen := a.compressed.mmapLen.toNat
  zstd := P.zstd
  parseTracingData := PerfTracingData.parse

/-- The objects when the header is read. -/
def started (h : PerfHeader) : Application δ := { header := h, features := { arch := P.arch } }

/-- `QCoreApplication::exit`. -/
def exit (a : Application δ) (code : ErrorCodes) : Application δ := { a with exitCode := some code }

/-- The features and then the attributes, as the unwinder gets them. -/
def announce (a : Application δ) : Application δ :=
  { a with
    data := (P.iterateAttributes a.data.attributes.attributes.entries).foldl
      (fun d (id, attrs) => d.dispatch (.attr { attr := attrs, ids := [id] }))
      (a.data.dispatch (.features a.features.toPerfFeatures)) }

/-- The end of `readFileHeader`, with the features read. -/
def acceptFeatures (a : Application δ) : Application δ :=
  if a.header.hasFeature Feature.compressed.number then
    if a.features.compressed.accepted then announce P { a with compressed := a.features.compressed }
    else a.exit .DataError
  else a.announce P

/-- `readFileHeader`. -/
def readFileHeader (a : Application δ) (f : QFile) : Option (Application δ × QFile) :=
  let filePos := f.pos
  match PerfAttributes.read a.header f a.data.attributes with
  | (false, attributes, f) => some (exit { a with data := { a.data with attributes } } .DataError, f)
  | (true, attributes, f) =>
    let a := { a with data := { a.data with attributes } }
    (PerfFeatureSections.read (a.env P) P.iterateSections P.fuel a.header f a.features).map fun
      | (false, features, f) => (exit { a with features } .DataError, f)
      | (true, features, f) => (acceptFeatures P { a with features }, { f with pos := filePos })

/-- What `finished` and `error` of the parser are connected to. -/
def receive (a : Application δ) : Option PerfData.Signal → PerfData δ → Application δ
  | some .finished, data => exit { a with data } .NoError
  | some .error, data => exit { a with data } .DataError
  | none, data => { a with data }

/-- `PerfData::read` on a file. -/
def readFile (a : Application δ) (f : QFile) : Application δ :=
  if a.header.isPipe then
    let (signal, r) := PerfData.read (a.env P) P.depth false true ⟨a.data, f.unread⟩
    a.receive signal r.data
  else
    let (signal, data) := PerfData.readFile (a.env P) P.depth a.header f a.data
    a.receive signal data

/-- `readData` on a file. -/
def readData (a : Application δ) (f : QFile) : Application δ :=
  if archByName a.features.arch = none then a.exit .MissingData
  else if f.unread = [] then a
  else a.readFile P f

/-- What is in front of the data of a file. -/
def front (h : PerfHeader) (f : QFile) : Option (Application δ × QFile) :=
  if h.isPipe then some (started P h, f) else (started P h).readFileHeader P f

/-- The program on a file. -/
def runFile (bytes : QByteArray) : Option (Application δ) :=
  match PerfHeader.read (some bytes.length) ⟨{}, bytes⟩ with
  | (none, r) => some (started P r.header)
  | (some .error, r) => some ((started P r.header).exit .HeaderError)
  | (some .finished, r) => (front P r.header ⟨bytes, bytes.length - r.unread.length⟩).map fun (a, f) => a.readData P f

/-! ## Streams -/

/-- What a stream is connected to, with what is left to be read of it. -/
inductive Stage (δ : Type)
  | header (r : PerfHeader.Reading)
  | events (a : Application δ) (unread : QByteArray)
  | buffering (a : Application δ) (unread tempfile : QByteArray)
  | done (a : Application δ)
deriving DecidableEq, Repr

/-- The length of the buffer in `bufferSequentialData`. -/
def bufferLength : Nat := 1 <<< 25

/-- `bufferSequentialData`, where nothing fails. -/
def bufferSequentialData (a : Application δ) (unread tempfile : QByteArray) : Stage δ :=
  .buffering a (unread.drop bufferLength) (tempfile ++ unread.take bufferLength)

/-- `PerfData::read` on a stream. -/
def readEvents (a : Application δ) (unread : QByteArray) : Stage δ :=
  match PerfData.read (a.env P) P.depth true true ⟨a.data, unread⟩ with
  | (none, r) => .events (a.receive none r.data) r.unread
  | (some signal, r) => .done (a.receive signal r.data)

/-- `PerfHeader::finished` on a stream. -/
def headerFinished (r : PerfHeader.Reading) : Stage δ :=
  let a := started P r.header
  if r.header.isPipe then
    if archByName a.features.arch = none then .done (a.exit .MissingData)
    else if r.unread = [] then .events a [] else a.readEvents P r.unread
  else
    let tempfile := List.replicate r.header.size.toInt.toNat 0
    if r.unread = [] then .buffering a [] tempfile else a.bufferSequentialData r.unread tempfile

/-- `readyRead` of the stream. -/
def arrive : Stage δ → QByteArray → Stage δ
  | .header r, chunk =>
    match PerfHeader.read none ⟨r.header, r.unread ++ chunk⟩ with
    | (none, r) => .header r
    | (some .error, r) => .done ((started P r.header).exit .HeaderError)
    | (some .finished, r) => headerFinished P r
  | .events a unread, chunk => a.readEvents P (unread ++ chunk)
  | .buffering a unread tempfile, chunk => a.bufferSequentialData (unread ++ chunk) tempfile
  | .done a, _ => .done a

/-- `aboutToClose` of the stream. -/
def close : Stage δ → Option (Application δ)
  | .header r => some ((started P r.header).exit .HeaderError)
  | .events a unread =>
    let (signal, r) := PerfData.finishReading (a.env P) P.depth true true ⟨a.data, unread⟩
    some (a.receive signal r.data)
  | .buffering a _ tempfile => (a.readFileHeader P ⟨tempfile, 0⟩).map fun (a, f) => a.readData P f
  | .done a => some a

/-- The program on a stream that arrives in chunks and closes. -/
def runStream (chunks : List QByteArray) : Option (Application δ) :=
  close P (chunks.foldl (arrive P) (.header ⟨{}, []⟩))

end Application

/-! ## Headers -/

namespace PerfHeader

variable {fileSize : Option Int} {bigEndian : Bool} {r r' : Reading}

@[simp] theorem fixFeatures_size (h : PerfHeader) : h.fixFeatures.size = h.size := by
  unfold fixFeatures
  split
  · dsimp only
    split <;> rfl
  · rfl

theorem readFields_size (bigEndian : Bool) (h : PerfHeader) (unread : QByteArray) :
    ((readFields bigEndian h).run unread).1.size = h.size := rfl

/-- How much of a device is taken to read the header. -/
def length (h : PerfHeader) : Nat := if h.isPipe then 16 else max 104 h.size.toInt.toNat

theorem length_congr {h h' : PerfHeader} (hsize : h'.size = h.size) : h'.length = h.length := by
  unfold length isPipe
  rw [hsize]

theorem readFile_finished (h : readFile fileSize bigEndian r = (some .finished, r')) :
    r'.header.size = r.header.size ∧ 16 ≤ r.header.size.toInt ∧ r'.unread = r.unread.drop (r.header.length - 16) := by
  have hfields := readFields_size bigEndian r.header r.unread
  have htaken := (takes_readFields bigEndian r.header).run_snd r.unread
  unfold readFile at h
  generalize (readFields bigEndian r.header).run r.unread = fields at h hfields htaken
  obtain ⟨header, unread⟩ := fields
  dsimp only at h hfields htaken
  have hsame : header.fixFeatures.size = r.header.size := (fixFeatures_size header).trans hfields
  split at h
  · cases h
  · rename_i hsmall
    have hlength : r.header.length = if r.header.size.toInt = 16 then 16 else max 104 r.header.size.toInt.toNat := by
      unfold length isPipe
      simp only [decide_eq_true_eq]
      rfl
    split at h
    · rename_i hlarge
      have hlarge' : 16 < r.header.size.toInt := hlarge
      rw [if_neg (by omega)] at hlength
      split at h
      · cases h
      · split at h
        · cases h
        · split at h
          · cases h
          · split at h
            · rename_i hmore
              have hmore' : 104 < header.fixFeatures.size.toInt := hmore
              rw [hsame] at hmore'
              split at h
              · cases h
              · cases h
                refine ⟨hsame, Int.not_lt.1 hsmall, ?_⟩
                show (unread.drop (header.fixFeatures.size.toInt - (104 : Nat)).toNat) = _
                rw [hlength, hsame, htaken, List.drop_drop]
                congr 1
                omega
            · rename_i hmore
              have hmore' : ¬104 < header.fixFeatures.size.toInt := hmore
              rw [hsame] at hmore'
              cases h
              refine ⟨hsame, Int.not_lt.1 hsmall, ?_⟩
              show unread = _
              rw [hlength, htaken]
              congr 1
              omega
    · rename_i hlarge
      have hlarge' : ¬16 < r.header.size.toInt := hlarge
      have hsmall' : ¬r.header.size.toInt < 16 := hsmall
      cases h
      refine ⟨rfl, Int.not_lt.1 hsmall, ?_⟩
      rw [hlength, if_pos (by omega)]
      rfl

/-- A header that is read has at least the size of one in front of a pipe. -/
theorem size_of_finished (h : read fileSize r = (some .finished, r')) : 16 ≤ r'.header.size.toInt := by
  unfold read at h
  dsimp only at h
  split at h
  · split at h
    · cases h
    · split at h
      · cases h
      · split at h
        · cases h
        · obtain ⟨hsize, hle, -⟩ := readFile_finished h
          rwa [hsize]
  · obtain ⟨hsize, hle, -⟩ := readFile_finished h
    rwa [hsize]

/-- A header that is read at once leaves what is behind it. -/
theorem unread_of_finished {bytes : QByteArray} (h : read fileSize ⟨{}, bytes⟩ = (some .finished, r')) :
    r'.unread = bytes.drop r'.header.length := by
  unfold read at h
  dsimp only at h
  rw [if_pos rfl] at h
  split at h
  · cases h
  · split at h
    · cases h
    · split at h
      · cases h
      · obtain ⟨hsize, -, hunread⟩ := readFile_finished h
        have hlength := length_congr hsize
        have hsixteen : 16 ≤ r'.header.length := by
          unfold length
          split <;> omega
        have htaken : ∀ (bigEndian : Bool) (s : QByteArray), ((i64 bigEndian).run s).2 = s.drop 8 := fun bigEndian =>
          (takes_i64 bigEndian).run_snd
        rw [hunread, ← hlength]
        dsimp only
        rw [htaken (bigEndian { magic := ((i64 true).run bytes).1 }), htaken true, List.drop_drop, List.drop_drop]
        congr 1
        omega

theorem readFile_file_isSome {size : Nat} (bigEndian : Bool) (r : Reading)
    (hunread : r.unread.length = size - 16) : (readFile (some size) bigEndian r).1.isSome := by
  unfold readFile tooSmall
  dsimp only
  split
  · rfl
  · split
    · split
      · rfl
      · rename_i hlen
        have hthere : ¬r.unread.length < fileHeaderFixedLength - pipeHeaderFixedLength := by
          unfold fileHeaderFixedLength pipeHeaderFixedLength at *
          simp only [decide_eq_true_eq] at hlen
          omega
        rw [if_neg hthere]
        split
        · rfl
        · split
          · split <;> rfl
          · rfl
    · rfl

/-- The header of a file is read in one call. -/
theorem read_file_isSome (bytes : QByteArray) : (read (some bytes.length) ⟨{}, bytes⟩).1.isSome := by
  unfold read tooSmall
  dsimp only
  rw [if_pos rfl]
  split
  · rfl
  · rename_i hlen
    have hpipe : ¬bytes.length < pipeHeaderFixedLength := by
      simp only [decide_eq_true_eq] at hlen
      omega
    have hdrop (bigEndian : Bool) (s : QByteArray) : ((i64 bigEndian).run s).2.length = s.length - 8 := by
      rw [(takes_i64 bigEndian).run_snd, List.length_drop]
    rw [if_neg hpipe]
    split
    · rfl
    · refine readFile_file_isSome _ _ ?_
      refine (hdrop (bigEndian { magic := ((i64 true).run bytes).1 }) _).trans ?_
      rw [hdrop true bytes]
      omega

end PerfHeader

namespace PerfData

variable {δ : Type} {E : Env δ} {depth : Nat}

theorem readSectionEvents_ne_rerun {endOfDataSection : Int} (fuel : Nat) : ∀ (pos : Nat) (r : Reading δ),
    (readSectionEvents E depth endOfDataSection fuel pos r).1 ≠ .Rerun := by
  have hfinished : ReadStatus.SignalFinished ≠ .Rerun := by decide
  have herror : ReadStatus.SignalError ≠ .Rerun := by decide
  induction fuel with
  | zero => exact fun _ _ => hfinished
  | succ fuel ih =>
    intro pos r
    rw [readSectionEvents]
    split
    · split
      · exact ih _ _
      · exact herror
    · exact hfinished

theorem readFile_isSome (h : PerfHeader) (f : QFile) (d : PerfData δ) : (readFile E depth h f d).1.isSome := by
  have hne : (doReadFile E depth h f d).1 ≠ .Rerun := by
    unfold doReadFile
    split
    · exact nofun
    · exact readSectionEvents_ne_rerun _ _ _
  unfold readFile
  generalize doReadFile E depth h f d = result at hne
  obtain ⟨st, d⟩ := result
  cases st with
  | Rerun => exact absurd rfl hne
  | _ => rfl

theorem read_file_isSome (r : Reading δ) : (read E depth false true r).1.isSome := by
  unfold read doRead
  generalize readEvents E depth false (r.unread.length + 1) r = result
  obtain ⟨st, r⟩ := result
  cases st <;> rfl

end PerfData
/-! ## What reading leaves of a file -/

theorem QFile.seek_bytes {f f' : QFile} {pos : Int} (h : f.seek pos = some f') : f'.bytes = f.bytes := by
  unfold QFile.seek at h
  split at h
  · cases h
  · cases h
    rfl

theorem PerfAttributes.readTable_bytes (h : PerfHeader) : ∀ (n i : Nat) (f : QFile) (attrs : PerfEventAttributes)
    (a : PerfAttributes), (readTable h f n i attrs a).2.2.bytes = f.bytes
  | 0, _, _, _, _ => rfl
  | n + 1, i, f, attrs, a => by
    rw [readTable]
    split
    · rfl
    · rename_i f' hseek
      have hbytes := QFile.seek_bytes hseek
      dsimp only
      split
      · exact hbytes
      · split
        · split
          · exact hbytes
          · rename_i f'' hseek'
            exact (readTable_bytes h n (i + 1) _ _ _).trans ((QFile.seek_bytes hseek').trans hbytes)
        · exact (readTable_bytes h n (i + 1) _ _ _).trans hbytes

theorem PerfAttributes.read_bytes (h : PerfHeader) (f : QFile) (a : PerfAttributes) :
    (read h f a).2.2.bytes = f.bytes := by
  unfold read
  split
  · rfl
  · exact readTable_bytes h _ 0 f {} a

section Features

variable {δ : Type} {E : Env δ} {fuel : Nat}

theorem PerfFeatureSections.createFeature_bytes {p : Feature × PerfFileSection} {x y : PerfFeatureSections × QFile}
    (h : createFeature E fuel x p = some y) : y.2.bytes = x.2.bytes := by
  obtain ⟨r, -, rfl⟩ := Option.map_eq_some_iff.1 h
  show ((x.2.seek p.2.offset.toInt).getD x.2).bytes = x.2.bytes
  cases hseek : x.2.seek p.2.offset.toInt with
  | none => rfl
  | some f => exact QFile.seek_bytes hseek

theorem PerfFeatureSections.foldlM_createFeature_bytes : ∀ {l : List (Feature × PerfFileSection)}
    {x y : PerfFeatureSections × QFile}, l.foldlM (createFeature E fuel) x = some y → y.2.bytes = x.2.bytes
  | [], _, _, h => by
    cases h
    rfl
  | p :: l, x, y, h => by
    rw [List.foldlM_cons] at h
    obtain ⟨z, hz, hy⟩ := Option.bind_eq_some_iff.1 h
    exact (foldlM_createFeature_bytes hy).trans (createFeature_bytes hz)

theorem PerfFeatureSections.read_bytes {iterate : List (Feature × PerfFileSection) → List (Feature × PerfFileSection)}
    {h : PerfHeader} {f : QFile} {s : PerfFeatureSections} {x : Bool × PerfFeatureSections × QFile}
    (hread : read E iterate fuel h f s = some x) : x.2.2.bytes = f.bytes := by
  unfold read at hread
  split at hread
  · cases hread
    rfl
  · rename_i f' hseek
    dsimp only at hread
    obtain ⟨y, hy, rfl⟩ := Option.map_eq_some_iff.1 hread
    have hbytes : y.2.bytes = f'.bytes := foldlM_createFeature_bytes hy
    exact hbytes.trans (QFile.seek_bytes hseek)

end Features

/-! ## Exit codes -/

namespace Application

variable {δ : Type} {P : Platform δ} {a a' : Application δ} {f f' : QFile}

theorem receive_ne_none {signal : Option PerfData.Signal} (h : signal.isSome) (data : PerfData δ) :
    (a.receive signal data).exitCode ≠ none := by
  cases signal with
  | none => cases h
  | some signal => cases signal <;> exact nofun

theorem readFile_ne_none (a : Application δ) (f : QFile) : (a.readFile P f).exitCode ≠ none := by
  unfold readFile
  split
  · exact receive_ne_none (PerfData.read_file_isSome _) _
  · exact receive_ne_none (PerfData.readFile_isSome _ _ _) _

theorem readData_eq_none_iff : (a.readData P f).exitCode = none ↔
    archByName a.features.arch ≠ none ∧ f.unread = [] ∧ a.exitCode = none := by
  unfold readData
  split
  · rename_i harch
    exact iff_of_false nofun fun h => h.1 harch
  · rename_i harch
    split
    · rename_i hnil
      exact ⟨fun h => ⟨harch, hnil, h⟩, fun h => h.2.2⟩
    · rename_i hnil
      exact iff_of_false (readFile_ne_none a f) fun h => hnil h.2.1

theorem acceptFeatures_exitCode (a : Application δ) :
    (a.acceptFeatures P).exitCode = some .DataError ∨ (a.acceptFeatures P).exitCode = a.exitCode := by
  unfold acceptFeatures
  split
  · split
    · exact .inr rfl
    · exact .inl rfl
  · exact .inr rfl

/-- Where nothing is wrong with what is in front of the data, the file is where it was. -/
theorem readFileHeader_exitCode (h : a.readFileHeader P f = some (a', f')) (ha : a.exitCode = none) :
    a'.exitCode = some .DataError ∨ a'.exitCode = none ∧ f' = f := by
  have hattributes := PerfAttributes.read_bytes a.header f a.data.attributes
  unfold readFileHeader at h
  dsimp only at h
  split at h
  · cases h
    exact .inl rfl
  · rename_i attributes f₁ hread
    rw [hread] at hattributes
    obtain ⟨x, hx, hmap⟩ := Option.map_eq_some_iff.1 h
    have hfeatures := PerfFeatureSections.read_bytes hx
    obtain ⟨ok, features, f₂⟩ := x
    cases ok with
    | false =>
      cases hmap
      exact .inl rfl
    | true =>
      cases hmap
      refine (acceptFeatures_exitCode _).imp_right fun hcode => ⟨hcode.trans ha, ?_⟩
      rw [show f₂.bytes = f.bytes from hfeatures.trans hattributes]

/-! ## Runs that never end -/

/-- The loop over the build ids of a file never ends. -/
def GoesOn (P : Platform δ) (a : Application δ) (f : QFile) : Prop :=
  ∃ (attributes : PerfAttributes) (f' : QFile),
    PerfAttributes.read a.header f a.data.attributes = (true, attributes, f') ∧
    PerfFeatureSections.GoesOn (a.env P) P.iterateSections a.header f' a.features

theorem grows_readFileHeader (a : Application δ) (f : QFile) : Grows fun fuel => a.readFileHeader (P.withFuel fuel) f := by
  unfold readFileHeader
  dsimp only
  generalize PerfAttributes.read a.header f a.data.attributes = read
  obtain ⟨ok, attributes, f'⟩ := read
  cases ok with
  | false => exact fun _ _ _ _ h => h
  | true =>
    intro n m b hle hb
    obtain ⟨x, hx, rfl⟩ := Option.map_eq_some_iff.1 hb
    exact Option.map_eq_some_iff.2
      ⟨x, PerfFeatureSections.grows_read (a.env P) P.iterateSections a.header f' a.features n m x hle hx, rfl⟩

theorem readFileHeader_eq_none_iff (a : Application δ) (f : QFile) :
    (∀ fuel, a.readFileHeader (P.withFuel fuel) f = none) ↔ a.GoesOn P f := by
  unfold readFileHeader GoesOn
  dsimp only
  generalize PerfAttributes.read a.header f a.data.attributes = read
  obtain ⟨ok, attributes, f'⟩ := read
  cases ok with
  | false =>
    refine iff_of_false (fun h => nomatch h 0) ?_
    rintro ⟨attributes', f'', ⟨⟩, -⟩
  | true =>
    have hread := PerfFeatureSections.read_eq_none_iff (a.env P) P.iterateSections a.header f' a.features
    refine (forall_congr' fun fuel => Option.map_eq_none_iff).trans (hread.trans ?_)
    constructor
    · exact fun h => ⟨attributes, f', rfl, h⟩
    · rintro ⟨attributes', f'', ⟨⟩, h⟩
      exact h

/-! ## Every closed stream -/

/-- What leads to an exit code when the stream closes. -/
def Stage.Exits : Stage δ → Prop
  | .buffering a _ tempfile => a.exitCode = none ∧ tempfile ≠ []
  | .done a => a.exitCode ≠ none
  | _ => True

theorem readEvents_exits (a : Application δ) (unread : QByteArray) : (a.readEvents P unread).Exits := by
  unfold readEvents
  split
  · trivial
  · exact receive_ne_none rfl _

theorem headerFinished_exits {r : PerfHeader.Reading} (hsize : 16 ≤ r.header.size.toInt) :
    (headerFinished P r).Exits := by
  unfold headerFinished
  dsimp only
  split
  · split
    · exact nofun
    · split
      · trivial
      · exact readEvents_exits _ _
  · have hzeros : List.replicate r.header.size.toInt.toNat (0 : UInt8) ≠ [] := by
      rw [ne_eq, List.replicate_eq_nil_iff]
      omega
    split
    · exact ⟨rfl, hzeros⟩
    · exact ⟨rfl, fun h => hzeros (List.append_eq_nil_iff.1 h).1⟩

theorem arrive_exits {s : Stage δ} (h : s.Exits) (chunk : QByteArray) : (arrive P s chunk).Exits := by
  cases s with
  | header r =>
    rw [arrive]
    split
    · trivial
    · exact nofun
    · rename_i r' hread
      exact headerFinished_exits (PerfHeader.size_of_finished hread)
  | events a unread => exact readEvents_exits a _
  | buffering a unread tempfile => exact ⟨h.1, fun hnil => h.2 (List.append_eq_nil_iff.1 hnil).1⟩
  | done a => exact h

theorem close_exits {s : Stage δ} (h : s.Exits) (hclose : close P s = some a) : a.exitCode ≠ none := by
  cases s with
  | header r =>
    cases hclose
    exact nofun
  | events a unread =>
    cases hclose
    exact receive_ne_none rfl _
  | buffering a₀ unread tempfile =>
    obtain ⟨⟨a₁, f₁⟩, hread, rfl⟩ := Option.map_eq_some_iff.1 hclose
    rw [ne_eq, readData_eq_none_iff]
    rintro ⟨-, hnil, hcode⟩
    rcases readFileHeader_exitCode hread h.1 with herror | ⟨-, rfl⟩
    · rw [hcode] at herror
      cases herror
    · exact h.2 hnil
  | done a =>
    cases hclose
    exact h

/-- When the stream closes, the loop over the build ids of what was buffered never ends. -/
def Stage.GoesOn (P : Platform δ) : Stage δ → Prop
  | .buffering a _ tempfile => a.GoesOn P ⟨tempfile, 0⟩
  | _ => False

theorem grows_close (s : Stage δ) : Grows fun fuel => close (P.withFuel fuel) s := by
  cases s with
  | buffering a unread tempfile =>
    intro n m b hle hb
    obtain ⟨x, hx, rfl⟩ := Option.map_eq_some_iff.1 hb
    exact Option.map_eq_some_iff.2 ⟨x, grows_readFileHeader a _ n m x hle hx, rfl⟩
  | _ => exact fun _ _ _ _ h => h

theorem close_eq_none_iff (s : Stage δ) : (∀ fuel, close (P.withFuel fuel) s = none) ↔ s.GoesOn P := by
  cases s with
  | buffering a unread tempfile =>
    exact (forall_congr' fun _ => Option.map_eq_none_iff).trans (readFileHeader_eq_none_iff a _)
  | _ => exact iff_of_false (fun h => nomatch h 0) id

/-- The fuel is for what happens when the stream closes. -/
theorem arrive_withFuel (fuel : Nat) : arrive (P.withFuel fuel) = arrive P := by
  funext s chunk
  cases s <;> rfl

/-- A file that was read up to what is left of it. -/
theorem unread_drop (bytes : QByteArray) (n : Nat) :
    QFile.unread ⟨bytes, bytes.length - (bytes.drop n).length⟩ = bytes.drop n := by
  unfold QFile.unread
  dsimp only
  rw [List.length_drop]
  by_cases hle : n ≤ bytes.length
  · congr 1
    omega
  · rw [List.drop_eq_nil_of_le (Nat.le_of_lt (Nat.lt_of_not_le hle)), List.drop_eq_nil_of_le]
    omega

/-- Where nothing is wrong with what is in front of the data, the file is where it was. -/
theorem front_exitCode {h : PerfHeader} (hfront : front P h f = some (a, f')) :
    a.exitCode = some .DataError ∨ a.exitCode = none ∧ f' = f := by
  unfold front at hfront
  split at hfront
  · cases hfront
    exact .inr ⟨rfl, rfl⟩
  · exact readFileHeader_exitCode hfront rfl

/-- The event loop goes on with no exit code if and only if nothing is behind the header, and nothing is wrong with the
rest. -/
theorem runFile_exitCode_iff (bytes : QByteArray) : (runFile P bytes).map Application.exitCode = some none ↔
    ∃ r a f, PerfHeader.read (some bytes.length) ⟨{}, bytes⟩ = (some .finished, r) ∧ r.unread = [] ∧
      front P r.header ⟨bytes, bytes.length⟩ = some (a, f) ∧ a.exitCode = none ∧ archByName a.features.arch ≠ none := by
  have hsome := PerfHeader.read_file_isSome bytes
  unfold runFile
  generalize hread : PerfHeader.read (some bytes.length) ⟨{}, bytes⟩ = read at hsome
  obtain ⟨signal, r⟩ := read
  rcases signal with - | - | -
  · cases hsome
  · have hunread := PerfHeader.unread_of_finished hread
    have hleft := unread_drop bytes r.header.length
    rw [← hunread] at hleft
    dsimp only
    constructor
    · intro hnone
      obtain ⟨b, hb, hcode⟩ := Option.map_eq_some_iff.1 hnone
      obtain ⟨⟨a, f⟩, hfront, rfl⟩ := Option.map_eq_some_iff.1 hb
      obtain ⟨harch, hnil, hcode⟩ := readData_eq_none_iff.1 hcode
      rcases front_exitCode hfront with herror | ⟨-, rfl⟩
      · rw [hcode] at herror
        cases herror
      · rw [hleft] at hnil
        rw [hnil] at hfront
        exact ⟨r, a, _, rfl, hnil, hfront, hcode, harch⟩
    · rintro ⟨r', a, f, ⟨⟩, hnil, hfront, hcode, harch⟩
      rw [hnil] at hleft ⊢
      rcases front_exitCode hfront with herror | ⟨-, rfl⟩
      · rw [hcode] at herror
        cases herror
      · rw [show bytes.length - ([] : QByteArray).length = bytes.length from rfl, hfront]
        exact congrArg some (readData_eq_none_iff.2 ⟨harch, hleft, hcode⟩)
  · refine iff_of_false nofun ?_
    rintro ⟨r', a, f, ⟨⟩, -⟩

theorem front_withFuel (fuel : Nat) (h : PerfHeader) (f : QFile) : front (P.withFuel fuel) h f =
    if h.isPipe then some (started P h, f) else (started P h).readFileHeader (P.withFuel fuel) f := rfl

theorem grows_front (h : PerfHeader) (f : QFile) : Grows fun fuel => front (P.withFuel fuel) h f := by
  simp only [front_withFuel]
  by_cases hpipe : h.isPipe
  · simp only [if_pos hpipe]
    exact fun _ _ _ _ h => h
  · simp only [if_neg hpipe]
    exact grows_readFileHeader _ f

theorem front_eq_none_iff (h : PerfHeader) (f : QFile) :
    (∀ fuel, front (P.withFuel fuel) h f = none) ↔ h.isPipe = false ∧ (started P h).GoesOn P f := by
  simp only [front_withFuel]
  by_cases hpipe : h.isPipe
  · simp only [if_pos hpipe]
    exact iff_of_false (fun h => nomatch h 0) fun h => Bool.false_ne_true (h.1.symm.trans hpipe)
  · simp only [if_neg hpipe]
    rw [readFileHeader_eq_none_iff, and_iff_right (Bool.not_eq_true _ ▸ hpipe)]

theorem grows_runFile (bytes : QByteArray) : Grows fun fuel => runFile (P.withFuel fuel) bytes := by
  unfold runFile
  generalize PerfHeader.read (some bytes.length) ⟨{}, bytes⟩ = read
  obtain ⟨signal, r⟩ := read
  rcases signal with - | - | -
  · exact fun _ _ _ _ h => h
  · intro n m b hle hb
    obtain ⟨x, hx, rfl⟩ := Option.map_eq_some_iff.1 hb
    exact Option.map_eq_some_iff.2 ⟨x, grows_front r.header _ n m x hle hx, rfl⟩
  · exact fun _ _ _ _ h => h

theorem runFile_eq_none_iff (bytes : QByteArray) : (∀ fuel, runFile (P.withFuel fuel) bytes = none) ↔
    ∃ r, PerfHeader.read (some bytes.length) ⟨{}, bytes⟩ = (some .finished, r) ∧ r.header.isPipe = false ∧
      (started P r.header).GoesOn P ⟨bytes, bytes.length - r.unread.length⟩ := by
  unfold runFile
  generalize PerfHeader.read (some bytes.length) ⟨{}, bytes⟩ = read
  obtain ⟨signal, r⟩ := read
  have hother : ∀ {signal : Option PerfHeader.Signal}, signal ≠ some .finished →
      ¬∃ r', (signal, r) = (some .finished, r') ∧ r'.header.isPipe = false ∧
        (started P r'.header).GoesOn P ⟨bytes, bytes.length - r'.unread.length⟩ := by
    rintro signal hne ⟨r', heq, -⟩
    exact hne (Prod.mk.inj heq).1
  rcases signal with - | - | -
  · exact iff_of_false (fun h => nomatch h 0) (hother nofun)
  · refine (forall_congr' fun fuel => Option.map_eq_none_iff).trans ((front_eq_none_iff r.header _).trans ?_)
    constructor
    · exact fun h => ⟨r, rfl, h⟩
    · rintro ⟨r', ⟨⟩, h⟩
      exact h
  · exact iff_of_false (fun h => nomatch h 0) (hother nofun)

/-- A host without compression, that iterates every hash in the order of insertion. -/
def plainPlatform : Platform Unit where
  zstd := (PerfData.plainEnv false).zstd
  depth := 0
  fuel := 0
  iterateSections := id
  iterateSections_perm _ := .refl _
  iterateAttributes := id
  iterateAttributes_perm _ := .refl _
  arch := QByteArray.ofString "x86"

/-- The header of a pipe. -/
def pipeHeader : QByteArray := [0x50, 0x45, 0x52, 0x46, 0x49, 0x4c, 0x45, 0x32, 16, 0, 0, 0, 0, 0, 0, 0]

example : (runFile plainPlatform pipeHeader).map Application.exitCode = some none := by decide

end Application

end PerfParser
