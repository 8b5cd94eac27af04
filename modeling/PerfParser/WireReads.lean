import PerfParser.TestClient
/-!
# WireReads — the client reads back what was written

Rules for what the client reads, one for each thing that a stream writes, and from them the event of a message
(`run_message`).  So the client makes of a whole output what it makes of the events of its messages, one after the other
(`extractTrace_output`), and notices where the output was cut, unless it is within a length (`extractTrace_cut`).
-/
namespace PerfParser

open QDataStream Reader

/-! ## Values -/

namespace QDataStream

theorem reads_u8 (n : UInt8) : Reads u8 (Layout.u8 n) n := by
  have h := (Reads.number true (k := 1) n.toNat_lt).map UInt8.ofNat
  rw [UInt8.ofNat_toNat] at h
  refine h.of_eq ?_ rfl
  show [n] = (toBytes 1 n.toNat).reverse
  simp [toBytes]

theorem reads_bool (b : Bool) : Reads bool (Layout.bool b) b :=
  ((reads_u8 _).map _).of_eq rfl (by cases b <;> rfl)

variable {α β : Type} {c d : QByteArray} {a : α} {b : β}

theorem reads_whole {r : Reader UInt8 α} (h : Reads r c a) {n : Nat} (hn : c.length = n) :
    Reads (whole r n) c (some a) := by
  subst hn
  refine ((Reads.take c).map _).of_eq rfl ?_
  rw [if_neg (Nat.lt_irrefl _), h.run_eq]

theorem reads_andThen {r : Reader UInt8 (Option α)} {f : α → Reader UInt8 (Option β)} {b : Option β}
    (h : Reads r c (some a)) (hf : Reads (f a) d b) : Reads (andThen r f) (c ++ d) b := h.bind hf

theorem reads_items {γ : Type} {item : Reader UInt8 (Option β)} {f : γ → QByteArray} {g : γ → β} : ∀ {l : List γ},
    (∀ x ∈ l, Reads item (f x) (some (g x))) → Reads (items item l.length) (l.flatMap f) (some (l.map g))
  | [], _ => .pure _
  | x :: l, h => by
    rw [List.flatMap_cons]
    exact reads_andThen (h x List.mem_cons_self) ((reads_items fun y hy => h y (List.mem_cons_of_mem x hy)).map _)

theorem reads_count (n : Nat) :
    Reads (whole (u32 true) 4) (Layout.u32 true (UInt32.ofNat n)) (some (UInt32.ofNat n)) :=
  reads_whole (Layout.reads_u32 true _) (Layout.length_u32 true _)

theorem reads_list? {γ : Type} {item : Reader UInt8 (Option β)} {f : γ → QByteArray} {g : γ → β} {l : List γ}
    (h : ∀ x ∈ l, Reads item (f x) (some (g x))) (hl : l.length < 2 ^ 32) :
    Reads (list? item) (Layout.list f l) (some (l.map g)) := by
  refine reads_andThen (reads_count l.length) ?_
  rw [UInt32.toNat_ofNat_of_lt' hl]
  exact reads_items h

theorem reads_list {γ : Type} {item : Reader UInt8 (Option β)} {f : γ → QByteArray} {g : γ → β} {l : List γ}
    (h : ∀ x ∈ l, Reads item (f x) (some (g x))) (hl : l.length < 2 ^ 32) :
    Reads (list item) (Layout.list f l) (l.map g) := (reads_list? h hl).map _

theorem reads_byteArray? {bytes : QByteArray} (h : bytes.length < 0xFFFFFFFF) :
    Reads byteArray? (Layout.buffer32 true bytes) (some bytes) := by
  have hlt : bytes.length < 2 ^ 32 := Nat.lt_trans h (by decide)
  have hnat : (UInt32.ofNat bytes.length).toNat = bytes.length := UInt32.toNat_ofNat_of_lt' hlt
  have hnull : UInt32.ofNat bytes.length ≠ 0xFFFFFFFF := fun heq => by
    rw [heq] at hnat
    exact absurd hnat (Nat.ne_of_gt h)
  refine reads_andThen (reads_count bytes.length) ?_
  rw [if_neg hnull, hnat]
  exact reads_whole (.raw 0 bytes) rfl

theorem reads_byteArray {bytes : QByteArray} (h : bytes.length < 0xFFFFFFFF) :
    Reads byteArray (Layout.buffer32 true bytes) bytes := (reads_byteArray? h).map _

theorem length_utf16 : ∀ s : QString, (s.flatMap (Layout.u16 true)).length = 2 * s.length
  | [] => rfl
  | c :: s => by
    rw [List.flatMap_cons, List.length_append, length_utf16 s, List.length_cons, Layout.length_u16]
    omega

/-- A text is passed over. -/
theorem reads_skipString {s : QString} (h : 2 * s.length < 0xFFFFFFFF) : Reads skipString (Layout.qString s) () := by
  have hnat : (UInt32.ofNat (s.flatMap (Layout.u16 true)).length).toNat = 2 * s.length := by
    rw [length_utf16]
    exact UInt32.toNat_ofNat_of_lt' (Nat.lt_trans h (by decide))
  refine (Layout.reads_u32 true _).bind ?_
  rw [if_neg (not_or.2 ⟨fun heq => ?_, by omega⟩), hnat, ← length_utf16]
  · exact .skip _
  · rw [heq] at hnat
    exact absurd hnat (Nat.ne_of_gt h)

/-! Variants -/

theorem reads_variantType (typeId : UInt32) : Reads variantType? (Layout.variantType typeId) (some typeId) :=
  reads_andThen (reads_whole (Layout.reads_u32 true typeId) (Layout.length_u32 true typeId))
    ((reads_whole (reads_u8 0) rfl).map _)

/-- The type of a number in front of it. -/
theorem exists_variantType (i : QVariantItem) : ∃ typeId c d, Layout.variantItem i = c ++ d ∧ c.length = 5 ∧
    Reads variantType? c (some typeId) ∧ Reads (variantNumber? typeId) d (some i) ∧ typeId.toNat ≠ 9 ∧
      typeId.toNat ≠ 12 := by
  have hlength : ∀ typeId, (Layout.variantType typeId).length = 5 := fun typeId => by
    rw [Layout.variantType, List.length_append, Layout.length_u32]
    rfl
  cases i with
  | invalid =>
    refine ⟨0, _, [], (List.append_nil _).symm, ?_, ?_, .pure _, by decide, by decide⟩
    · exact hlength 0
    · exact reads_andThen (reads_whole (Layout.reads_u32 true 0) (Layout.length_u32 true 0))
        ((reads_whole (reads_u8 1) rfl).map _)
  | int n =>
    exact ⟨2, _, _, rfl, hlength 2, reads_variantType 2,
      (reads_whole (Layout.reads_i32 true n) (Layout.length_i32 true n)).map _, by decide, by decide⟩
  | uInt n =>
    exact ⟨3, _, _, rfl, hlength 3, reads_variantType 3,
      (reads_whole (Layout.reads_u32 true n) (Layout.length_u32 true n)).map _, by decide, by decide⟩
  | longLong n =>
    exact ⟨4, _, _, rfl, hlength 4, reads_variantType 4,
      (reads_whole (Layout.reads_i64 true n) (Layout.length_u64 true _)).map _, by decide, by decide⟩
  | uLongLong n =>
    exact ⟨5, _, _, rfl, hlength 5, reads_variantType 5,
      (reads_whole (Layout.reads_u64 true n) (Layout.length_u64 true n)).map _, by decide, by decide⟩

theorem reads_variantItem (i : QVariantItem) : Reads variantItem? (Layout.variantItem i) (some i) := by
  obtain ⟨typeId, c, d, hc, -, htype, hnumber, -, -⟩ := exists_variantType i
  rw [hc]
  exact reads_andThen htype hnumber

theorem variantItem_ne_nil (i : QVariantItem) : Layout.variantItem i ≠ [] := by
  obtain ⟨typeId, c, d, hc, hlength, -⟩ := exists_variantType i
  rw [hc]
  exact List.append_ne_nil_of_left_ne_nil (List.ne_nil_of_length_eq_add_one hlength) _

/-- A container has no more items than bytes. -/
theorem length_list {γ : Type} {f : γ → QByteArray} (h : ∀ x, f x ≠ []) (l : List γ) :
    l.length + 4 ≤ (Layout.list f l).length := by
  have := count_le (l := l) h
  rw [Layout.list, List.length_append, Layout.length_u32]
  omega

theorem reads_variant {v : QVariant} (h : (Layout.variant v).length < 2 ^ 31) :
    Reads variant? (Layout.variant v) (some v) := by
  cases v with
  | item i =>
    obtain ⟨typeId, c, d, hc, -, htype, hnumber, hlist, hbytes⟩ := exists_variantType i
    rw [Layout.variant, hc]
    refine reads_andThen htype ?_
    split
    · exact absurd ‹_› hlist
    · exact absurd ‹_› hbytes
    · exact hnumber.map _
  | byteArray b =>
    rw [Layout.variant, List.length_append, Layout.length_buffer32] at h
    exact reads_andThen (reads_variantType 12) ((reads_byteArray? (by omega)).map _)
  | list l =>
    have hl := length_list variantItem_ne_nil l
    rw [Layout.variant, List.length_append] at h
    refine reads_andThen (reads_variantType 9)
      (((reads_list? (g := id) (fun i _ => reads_variantItem i) (by omega)).map _).of_eq rfl ?_)
    rw [List.map_id]
    rfl

end QDataStream

/-! ## Events -/

namespace PerfParserTestClient

def LocationEvent.of (l : Location) : LocationEvent where
  address := l.address
  relAddr := l.relAddr
  file := Int32.ofInt l.file
  pid := l.pid
  line := Int32.ofInt l.line
  column := Int32.ofInt l.column
  parentLocationId := Int32.ofInt l.parentLocationId

def SymbolEvent.of (s : Symbol) : SymbolEvent where
  name := Int32.ofInt s.name
  relAddr := s.relAddr
  size := s.size
  binary := Int32.ofInt s.binary
  path := Int32.ofInt s.path
  actualPath := Int32.ofInt s.actualPath
  isKernel := s.isKernel
  isInline := s.isInline

def ThreadEvent.of (e : TaskEvent) : ThreadEvent where
  pid := e.pid
  tid := e.tid
  time := e.time
  cpu := e.cpu

def SampleEvent.of (s : SampleRecord) (tracePointData : QHash Int32 QVariant) : SampleEvent where
  pid := s.pid
  tid := s.tid
  time := s.time
  cpu := s.cpu
  frames := s.frames
  values := s.values
  tracePointData := tracePointData
  numGuessedFrames := s.numGuessedFrames

def Event.ofTask (e : TaskEvent) : Event :=
  match e.type with
  | .threadStart parentPid => .threadStart { ThreadEvent.of e with ppid := parentPid }
  | .threadEnd => .threadEnd (ThreadEvent.of e)
  | .command commId => .command { ThreadEvent.of e with name := commId }
  | .lostDefinition _ | .contextSwitchDefinition _ => .skipped

end PerfParserTestClient

open PerfUnwind (EventType)
open PerfParserTestClient hiding Event EventType

namespace Wire

variable (W : Wire) (rounds : Nat)

/-- What the client is to read of a record. -/
def event : Record → Option PerfParserTestClient.Event
  | .definition (.string id string) => some (.stringDefinition (Int32.ofInt id) string)
  | .definition (.location id l) => some (.locationDefinition (Int32.ofInt id) (.of l))
  | .definition (.symbol id s) => some (.symbolDefinition (Int32.ofInt id) (.of s))
  | .definition (.debugInfoDownloadProgress ..) => some .skipped
  | .taskEvent e => some (.ofTask e)
  | .attributesDefinition id type config attrNameId usesFrequency frequenyOrPeriod =>
    some (.attributesDefinition id { type, name := attrNameId, config, usesFrequency,
                                     frequencyOrPeriod := frequenyOrPeriod })
  | .tracePointFormat id systemId nameId flags =>
    some (.tracePointFormat id { system := systemId, name := nameId, flags })
  | .featuresDefinition _ => some .skipped
  | .timeOrderViolation .. => some (.error TimeOrderViolation)
  | .sample s => some (.sample (.of s []))
  | .tracePointSample s traceData rawData =>
    (W.traceVariants rounds traceData rawData).map fun values =>
      .sample (.of s (QHash.insertAll (W.iterate values.entries)))

/-- What the client is to read of a message. -/
def messageEvent : Message → Option PerfParserTestClient.Event
  | .record r => W.event rounds r
  | .progress percent => some (.progress (floatOfDouble percent))
  | .missingElfFile _ => some (.error MissingElfFile)
  | .invalidKallsyms .. => some (.error InvalidKallsyms)

/-! What the parts of an event are read from. -/

theorem reads_location (l : Location) : Reads LocationEvent.read (location l) (.of l) :=
  ((Layout.reads_u64 true l.address).bind <| (Layout.reads_i32 true _).bind <| (Layout.reads_u32 true l.pid).bind <|
    (Layout.reads_i32 true _).bind <| (Layout.reads_i32 true _).bind <| (Layout.reads_i32 true _).bind <|
    (Layout.reads_u64 true l.relAddr).map _)

theorem reads_symbol (s : Symbol) : Reads SymbolEvent.read (symbol s) (.of s) :=
  ((Layout.reads_i32 true _).bind <| (Layout.reads_i32 true _).bind <| (Layout.reads_i32 true _).bind <|
    (reads_bool s.isKernel).bind <| (Layout.reads_u64 true s.relAddr).bind <| (Layout.reads_u64 true s.size).bind <|
    (Layout.reads_i32 true _).bind <| (reads_bool s.isInline).map _)

theorem reads_thread (e : ThreadEvent) : Reads ThreadEvent.read
    (Layout.i32 true e.pid ++ (Layout.i32 true e.tid ++ (Layout.u64 true e.time ++ Layout.u32 true e.cpu))) e :=
  (Layout.reads_i32 true e.pid).bind <| (Layout.reads_i32 true e.tid).bind <| (Layout.reads_u64 true e.time).bind <|
    (Layout.reads_u32 true e.cpu).map _

theorem reads_value (v : Int32 × UInt64) :
    Reads (whole readValue 12) (Layout.i32 true v.1 ++ Layout.u64 true v.2) (some v) :=
  reads_whole ((Layout.reads_i32 true v.1).bind ((Layout.reads_u64 true v.2).map _)) (by
    rw [List.length_append, Layout.length_i32, Layout.length_u64])

theorem reads_entry {p : Int32 × QVariant} (h : (Layout.variant p.2).length < 2 ^ 31) :
    Reads readEntry (Layout.i32 true p.1 ++ Layout.variant p.2) (some p) :=
  reads_andThen (reads_whole (Layout.reads_i32 true p.1) (Layout.length_i32 true p.1)) ((reads_variant h).map _)

theorem ne_nil_of_length {bytes : QByteArray} {n : Nat} (h : bytes.length = n + 1) : bytes ≠ [] :=
  List.ne_nil_of_length_eq_add_one h

theorem reads_sampleFields {s : SampleRecord} (hs : (sampleFields s).length < 2 ^ 31) {isTracePoint : Bool}
    {d : QByteArray} {data : QHash Int32 QVariant}
    (hdata : Reads (readTracePointData isTracePoint) d data) :
    Reads (SampleEvent.read isTracePoint) (sampleFields s ++ d) (.of s data) := by
  have hframes := length_list (fun id => ne_nil_of_length (Layout.length_i32 true id)) s.frames
  have hvalues := length_list (f := fun v : Int32 × UInt64 => Layout.i32 true v.1 ++ Layout.u64 true v.2)
    (fun v => List.append_ne_nil_of_left_ne_nil (ne_nil_of_length (Layout.length_i32 true v.1)) _) s.values
  simp only [sampleFields, List.length_append] at hs
  have hthread := reads_thread ⟨s.pid, s.tid, s.time, s.cpu⟩
  have hids : Reads (list (whole (i32 true) 4)) (Layout.list (Layout.i32 true) s.frames) (s.frames.map id) :=
    reads_list (fun id _ => reads_whole (Layout.reads_i32 true id) (Layout.length_i32 true id)) (by omega)
  have hpairs := reads_list (g := id) (l := s.values) (fun v _ => reads_value v) (by omega)
  rw [List.map_id] at hids hpairs
  refine (hthread.bind <| hids.bind <| (reads_u8 s.numGuessedFrames).bind <| hpairs.bind <|
    (hdata.map _)).of_eq ?_ rfl
  simp only [sampleFields, List.append_assoc]

theorem reads_tracePointData {l : List (Int32 × QVariant)}
    (hl : (Layout.list (fun p => Layout.i32 true p.1 ++ Layout.variant p.2) l).length < 2 ^ 31) :
    Reads (readTracePointData true) (Layout.list (fun p => Layout.i32 true p.1 ++ Layout.variant p.2) l)
      (QHash.insertAll l) := by
  have hcount := length_list (f := fun p : Int32 × QVariant => Layout.i32 true p.1 ++ Layout.variant p.2)
    (fun p => List.append_ne_nil_of_left_ne_nil (ne_nil_of_length (Layout.length_i32 true p.1)) _) l
  have hentry : ∀ p ∈ l, (Layout.variant p.2).length < 2 ^ 31 := fun p hp => by
    have hle := length_le_of_mem (f := fun p : Int32 × QVariant => Layout.i32 true p.1 ++ Layout.variant p.2) hp
    rw [Layout.list, List.length_append] at hl
    rw [List.length_append] at hle
    omega
  have hlist := reads_list (g := id) (fun p hp => reads_entry (hentry p hp)) (by omega)
  rw [List.map_id] at hlist
  exact hlist.map _

/-- The type of a message, as the client numbers it. -/
def clientType (type : EventType) : PerfParserTestClient.EventType :=
  PerfParserTestClient.EventType.all[type.number.toNat]?.getD .invalidType

/-- A message with the fields that the client reads. -/
theorem run_event {type : EventType} {fields : QByteArray} {event : PerfParserTestClient.Event} (size : Nat)
    (h : Reads (PerfParserTestClient.Event.readFields size (clientType type)) fields event) :
    (PerfParserTestClient.Event.read size).run (Layout.u8 type.number ++ fields) = (event, []) :=
  ((reads_u8 type.number).bind h).run_eq

/-- A message that the client skips. -/
theorem run_skipped (type : EventType) (h : ∀ size, PerfParserTestClient.Event.readFields size (clientType type) =
      (fun _ => .skipped) <$> skipRawData size) (fields : QByteArray) :
    (PerfParserTestClient.Event.read (Layout.u8 type.number ++ fields).length).run (Layout.u8 type.number ++ fields) =
      (.skipped, []) := by
  have hrest : fields.drop ((Layout.u8 type.number ++ fields).length : Int).toNat = [] := by
    rw [Int.toNat_natCast, List.length_append]
    exact List.drop_of_length_le (Nat.le_add_left _ _)
  rw [PerfParserTestClient.Event.read, run_bind, reads_u8 type.number fields]
  refine (congrArg (fun r => r.run fields) (h _)).trans ?_
  exact congrArg (Prod.mk _) hrest

theorem run_taskEvent (e : TaskEvent) {message : QByteArray} (h : W.payload rounds (.taskEvent e) = some message) :
    (PerfParserTestClient.Event.read message.length).run message = (.ofTask e, []) := by
  obtain ⟨pid, tid, time, cpu, type⟩ := e
  rw [← Option.some.inj h]
  have hthread := reads_thread ⟨pid, tid, time, cpu⟩
  cases type with
  | threadStart parentPid =>
    refine run_event _ ((hthread.bind <| (Layout.reads_i32 true parentPid).map _).of_eq ?_ rfl)
    simp only [taskPayload, List.append_assoc]
  | threadEnd =>
    refine run_event _ ((hthread.map _).of_eq ?_ rfl)
    simp only [taskPayload, List.append_nil]
  | command commId =>
    refine run_event _ ((hthread.bind <| (Layout.reads_i32 true commId).map _).of_eq ?_ rfl)
    simp only [taskPayload, List.append_assoc]
  | lostDefinition lost => exact run_skipped .lostDefinition (fun _ => rfl) _
  | contextSwitchDefinition switchOut => exact run_skipped .contextSwitchDefinition (fun _ => rfl) _

theorem run_definition (definition : Definition) {message : QByteArray}
    (h : W.payload rounds (.definition definition) = some message) (hlength : message.length < 2 ^ 31) :
    ∃ event, W.event rounds (.definition definition) = some event ∧
      (PerfParserTestClient.Event.read message.length).run message = (event, []) := by
  cases definition with
  | string id string =>
    rw [← Option.some.inj h] at hlength ⊢
    simp only [List.length_append, Layout.length_buffer32] at hlength
    have hstring : string.length < 0xFFFFFFFF := by omega
    exact ⟨_, rfl, run_event _ ((Layout.reads_i32 true _).bind <| (reads_byteArray hstring).map _)⟩
  | location id l =>
    rw [← Option.some.inj h]
    exact ⟨_, rfl, run_event _ ((Layout.reads_i32 true _).bind <| (reads_location l).map _)⟩
  | symbol id s =>
    rw [← Option.some.inj h]
    exact ⟨_, rfl, run_event _ ((Layout.reads_i32 true _).bind <| (reads_symbol s).map _)⟩
  | debugInfoDownloadProgress module url numerator denominator =>
    rw [← Option.some.inj h]
    exact ⟨_, rfl, run_skipped .debugInfoDownloadProgress (fun _ => rfl) _⟩

theorem run_error (code : Int32) (text : QString) (hlength : (error code text).length < 2 ^ 31) :
    (PerfParserTestClient.Event.read (error code text).length).run (error code text) = (.error code, []) := by
  simp only [error, List.length_append, Layout.qString, Layout.length_buffer32, length_utf16] at hlength
  exact run_event _ ((Layout.reads_i32 true code).bind <| (reads_skipString (by omega)).map _)

/-- The client reads of a record what was sent of it. -/
theorem run_payload {r : Record} {message : QByteArray} (h : W.payload rounds r = some message)
    (hlength : message.length < 2 ^ 31) : ∃ event, W.event rounds r = some event ∧
      (PerfParserTestClient.Event.read message.length).run message = (event, []) := by
  cases r with
  | definition definition => exact W.run_definition rounds definition h hlength
  | taskEvent e => exact ⟨_, rfl, W.run_taskEvent rounds e h⟩
  | attributesDefinition id type config attrNameId usesFrequency frequenyOrPeriod =>
    rw [← Option.some.inj h]
    exact ⟨_, rfl, run_event _ ((Layout.reads_i32 true _).bind <| ((Layout.reads_u32 true _).bind <|
      (Layout.reads_u64 true _).bind <| (Layout.reads_i32 true _).bind <| (reads_bool _).bind <|
      (Layout.reads_u64 true _).map _).map _)⟩
  | tracePointFormat id systemId nameId flags =>
    rw [← Option.some.inj h]
    exact ⟨_, rfl, run_event _ ((Layout.reads_i32 true _).bind <| ((Layout.reads_i32 true _).bind <|
      (Layout.reads_i32 true _).bind <| (Layout.reads_u32 true _).map _).map _)⟩
  | featuresDefinition features =>
    rw [← Option.some.inj h]
    exact ⟨_, rfl, run_skipped .featuresDefinition (fun _ => rfl) _⟩
  | timeOrderViolation mmapTime lastFlushMaxTime =>
    rw [← Option.some.inj h] at hlength ⊢
    exact ⟨_, rfl, run_error _ _ hlength⟩
  | sample s =>
    rw [← Option.some.inj h] at hlength ⊢
    rw [List.length_append] at hlength
    have hsample : Reads (SampleEvent.read false) (sampleFields s ++ []) (.of s []) :=
      reads_sampleFields (by omega) (.pure [])
    rw [List.append_nil] at hsample
    exact ⟨_, rfl, run_event _ (hsample.map _)⟩
  | tracePointSample s traceData rawData =>
    obtain ⟨values, hvalues, rfl⟩ := Option.map_eq_some_iff.1 h
    simp only [List.length_append] at hlength
    refine ⟨.sample (.of s (QHash.insertAll (W.iterate values.entries))), ?_, ?_⟩
    · rw [event, hvalues]
      rfl
    · have hdata := reads_tracePointData (l := W.iterate values.entries) (by omega)
      have hsample := reads_sampleFields (s := s) (by omega) hdata
      exact run_event _ (hsample.map _)

/-- **The client reads of a message what was sent in it, up to the last byte.** -/
theorem run_message {m : Message} {message : QByteArray} (h : W.message rounds m = some message)
    (hlength : message.length < 2 ^ 31) : ∃ event, W.messageEvent rounds m = some event ∧
      (PerfParserTestClient.Event.read message.length).run message = (event, []) := by
  cases m with
  | record r => exact W.run_payload rounds h hlength
  | progress percent =>
    rw [← Option.some.inj h]
    exact ⟨_, rfl, run_event _ ((Layout.reads_u64 true percent).map _)⟩
  | missingElfFile filePath =>
    rw [← Option.some.inj h] at hlength ⊢
    exact ⟨_, rfl, run_error _ _ hlength⟩
  | invalidKallsyms path errorString =>
    rw [← Option.some.inj h] at hlength ⊢
    exact ⟨_, rfl, run_error _ _ hlength⟩

/-! ## Whole outputs -/

theorem handle_message {m : Message} {message : QByteArray} (h : W.message rounds m = some message)
    (hlength : message.length < 2 ^ 31) :
    ∃ event, W.messageEvent rounds m = some event ∧ ∀ x : Extraction, x.handle message = x.apply event := by
  obtain ⟨event, hevent, hrun⟩ := W.run_message rounds h hlength
  refine ⟨event, hevent, fun x => ?_⟩
  rw [Extraction.handle, hrun]
  rfl

/-- Some messages are handled as their events. -/
theorem foldlM_handle : ∀ {sent : List Message} {messages : List QByteArray},
    sent.mapM (W.message rounds) = some messages → (∀ message ∈ messages, message.length < 2 ^ 31) →
      ∃ events, sent.mapM (W.messageEvent rounds) = some events ∧ ∀ (k : Nat) (x : Extraction),
        (messages.take k).foldlM Extraction.handle x = (events.take k).foldlM Extraction.apply x
  | [], messages, h, _ => by
    obtain rfl : [] = messages := Option.some.inj h
    exact ⟨[], rfl, fun k x => by rw [List.take_nil, List.take_nil]; rfl⟩
  | m :: sent, messages, h, hlength => by
    rw [List.mapM_cons] at h
    obtain ⟨message, hmessage, h⟩ := Option.bind_eq_some_iff.1 h
    obtain ⟨messages', hmessages, h⟩ := Option.bind_eq_some_iff.1 h
    obtain rfl : message :: messages' = messages := Option.some.inj h
    obtain ⟨event, hevent, hhandle⟩ := W.handle_message rounds hmessage (hlength message List.mem_cons_self)
    obtain ⟨events, hevents, hfold⟩ := foldlM_handle hmessages fun m hm => hlength m (List.mem_cons_of_mem message hm)
    refine ⟨event :: events, ?_, fun k x => ?_⟩
    · rw [List.mapM_cons, hevent, hevents]
      rfl
    · cases k with
      | zero => rfl
      | succ k =>
        rw [List.take_succ_cons, List.take_succ_cons, List.foldlM_cons, List.foldlM_cons, hhandle]
        exact congrArg _ (funext fun x' => hfold k x')

theorem extractTrace_header (s : QByteArray) :
    extractTrace W.version (W.header ++ s) = (framing.receive Extraction.handle {} s).map Extraction.client := by
  have hread := Layout.reads_i32 false W.version s
  have hmagic : streamMagic.length = 12 := rfl
  have hversion : W.header.length = 16 := by rw [header, List.length_append, Layout.length_i32, hmagic]
  have htake : (W.header ++ s).take 12 = streamMagic := by
    rw [header, List.append_assoc, ← hmagic, List.take_left]
  have hdrop : (W.header ++ s).drop 12 = Layout.i32 false W.version ++ s := by
    rw [header, List.append_assoc, ← hmagic, List.drop_left]
  have hrest : (W.header ++ s).drop 16 = s := by rw [← hversion, List.drop_left]
  have hempty : (W.header ++ s).isEmpty = false := rfl
  rw [extractTrace, hempty, htake, hdrop, hread, hrest, if_neg (by simp)]

/-- **An output that is cut anywhere behind its header** gives the client the messages that are whole, and the test fails
there unless less than a length is left of the next one. -/
theorem extractTrace_cut {sent : List Message} {messages : List QByteArray}
    (h : sent.mapM (W.message rounds) = some messages) (hlength : ∀ message ∈ messages, message.length < 2 ^ 31)
    {s : QByteArray} (hcut : s <+: framing.frames messages) :
    ∃ events k part, sent.mapM (W.messageEvent rounds) = some events ∧ framing.CutAt messages s k part ∧
      extractTrace W.version (W.header ++ s) = ((events.take k).foldlM Extraction.apply {}).bind fun x =>
        if part.length < 4 then some x.client else none := by
  obtain ⟨events, hevents, hfold⟩ := W.foldlM_handle rounds h hlength
  obtain ⟨k, part, hpart⟩ := framing.exists_cutAt hcut
  refine ⟨events, k, part, hevents, hpart, ?_⟩
  rw [extractTrace_header, framing.receive_prefix Extraction.handle hlength {} hpart, hfold, Option.map_bind]
  exact congrArg _ (funext fun x => apply_ite (Option.map Extraction.client) (part.length < framing.width) (some x) none)

/-- A process with a name, a location of it and a sample there, while a file is read. -/
def sampleMessages : List Message :=
  [.progress 0, .record (.definition (.string 0 [115, 104])),
    .record (.taskEvent { pid := 5, tid := 5, time := 1, cpu := 0, type := .command 0 }),
    .record (.definition (.location 0 { address := 0x1030, pid := 5 })),
    .record (.definition (.symbol 0 { name := 0 })),
    .record (.attributesDefinition 0 0 0 0 false 1000),
    .record (.sample
      { pid := 5, tid := 5, time := 2, cpu := 0, frames := [0], numGuessedFrames := 0, values := [(0, 1000)] })]

def samplePayloads : List QByteArray := (sampleMessages.mapM (plain.message 0)).getD []

/-- The output is cut in the sample, which is the seventh message. -/
theorem extractTrace_cut_sample : ∃ events k part, sampleMessages.mapM (plain.messageEvent 0) = some events ∧
    framing.CutAt samplePayloads ((framing.frames samplePayloads).take 210) k part ∧
      extractTrace 1 (plain.header ++ (framing.frames samplePayloads).take 210) =
        ((events.take k).foldlM Extraction.apply {}).bind fun x => if part.length < 4 then some x.client else none :=
  plain.extractTrace_cut 0 (show sampleMessages.mapM (plain.message 0) = some samplePayloads by decide +kernel)
    (by decide +kernel) (List.take_prefix 210 _)

/-- **The client makes of an output what it makes of the events of its messages**, one after the other. -/
theorem extractTrace_output {sent : List Message} {messages : List QByteArray}
    (h : sent.mapM (W.message rounds) = some messages) (hlength : ∀ message ∈ messages, message.length < 2 ^ 31) :
    ∃ events, sent.mapM (W.messageEvent rounds) = some events ∧
      extractTrace W.version (W.header ++ framing.frames messages) =
        (events.foldlM Extraction.apply {}).map Extraction.client := by
  obtain ⟨events, hevents, hfold⟩ := W.foldlM_handle rounds h hlength
  have hreceive := framing.receive_frames Extraction.handle messages {} hlength []
  have hall := hfold (messages.length + events.length) {}
  rw [List.take_of_length_le (Nat.le_add_right _ _), List.take_of_length_le (Nat.le_add_left _ _)] at hall
  rw [List.append_nil, hall] at hreceive
  refine ⟨events, hevents, ?_⟩
  rw [extractTrace_header, hreceive]
  exact congrArg _ (Option.bind_fun_some _)

end Wire

end PerfParser
