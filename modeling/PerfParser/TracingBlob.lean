import PerfParser.TracingLines
import PerfParser.Layouts
import PerfParser.ReadEvents
import Mathlib.Algebra.BigOperators.Group.List.Basic
/-!
# TracingBlob — tracing data as they are written, and back

The sections of the blob in the order in which they are read, each with its size or its count before it.  Only the
sections of events have formats in them, so a reader of sections is told by the formats it adds (`Adds`); what a blob was
written with is what is found in `m_eventFormats` (`readTracingData_formats`).
-/
namespace PerfParser

open Reader

/-! ## What is written -/

structure TraceSystem where
  name : { s : QByteArray // 0 ∉ s }
  events : List TraceEvent

structure TraceBlob where
  version : { s : QByteArray // 0 ∉ s }
  endianness : UInt8
  longSize : UInt8
  pageSize : Int32
  headerPage : QByteArray
  headerEvent : QByteArray
  ftrace : List TraceEvent
  systems : List TraceSystem
  kallsyms : QByteArray
  printk : QByteArray
  cmdlines : QByteArray
  padding : QByteArray

namespace Layout

variable (bigEndian : Bool)

/-- A buffer behind its size of 8 bytes. -/
def buffer64 (bytes : QByteArray) : QByteArray := u64 bigEndian (UInt64.ofNat bytes.length) ++ bytes

/-- A buffer behind its size of 4 bytes. -/
def buffer32 (bytes : QByteArray) : QByteArray := u32 bigEndian (UInt32.ofNat bytes.length) ++ bytes

/-- Elements behind their count. -/
def counted {α : Type} (f : α → QByteArray) (l : List α) : QByteArray :=
  i32 bigEndian (Int32.ofNat l.length) ++ l.flatMap f

def events (l : List TraceEvent) : QByteArray := counted bigEndian (fun e => buffer64 bigEndian e.text) l

def systems (l : List TraceSystem) : QByteArray :=
  counted bigEndian (fun s => s.name.val ++ [0] ++ events bigEndian s.events) l

end Layout

namespace TraceBlob

def bigEndian (b : TraceBlob) : Bool := b.endianness != 0

def preamble (b : TraceBlob) : QByteArray :=
  b.version.val ++ [0] ++ ([b.endianness] ++ ([b.longSize] ++ Layout.i32 b.bigEndian b.pageSize))

/-- The sections; the saved command lines are there since version 0.6. -/
def sections (b : TraceBlob) : List QByteArray :=
  [QByteArray.ofString "header_page" ++ [0], Layout.buffer64 b.bigEndian b.headerPage,
    QByteArray.ofString "header_event" ++ [0], Layout.buffer64 b.bigEndian b.headerEvent,
    Layout.events b.bigEndian b.ftrace, Layout.systems b.bigEndian b.systems,
    Layout.buffer32 b.bigEndian b.kallsyms, Layout.buffer32 b.bigEndian b.printk]
  ++ if b.version.val.toFloatAtLeast06 then [Layout.buffer64 b.bigEndian b.cmdlines] else []

def bytes (b : TraceBlob) : QByteArray :=
  PerfTracingData.tracingMagic ++ (b.preamble ++ (b.sections.flatten ++ b.padding))

/-- The events with their systems. -/
def events (b : TraceBlob) : List (QByteArray × TraceEvent) :=
  b.ftrace.map (fun e => (QByteArray.ofString "ftrace", e))
    ++ b.systems.flatMap (fun s => s.events.map (fun e => (s.name.val, e)))

end TraceBlob

/-! ## Buffers -/

section Buffers

variable (bigEndian : Bool)

theorem reads_readRawData (bytes : QByteArray) : Reads (QDataStream.readRawData bytes.length) bytes bytes := .raw 0 bytes

theorem reads_size64 {bytes : QByteArray} (h : bytes.length ≤ intMax) :
    Reads (PerfTracingData.size64 bigEndian) (Layout.u64 bigEndian (UInt64.ofNat bytes.length)) bytes.length := by
  have hsize := (Layout.reads_u64 bigEndian (UInt64.ofNat bytes.length)).map UInt64.toNat
  have hmax : intMax < 2 ^ 64 := by decide
  rwa [UInt64.toNat_ofNat', Nat.mod_eq_of_lt (by omega)] at hsize

theorem reads_size32 {bytes : QByteArray} (h : bytes.length ≤ intMax) :
    Reads (PerfTracingData.size32 bigEndian) (Layout.u32 bigEndian (UInt32.ofNat bytes.length)) bytes.length := by
  have hsize := (Layout.reads_u32 bigEndian (UInt32.ofNat bytes.length)).map UInt32.toNat
  have hmax : intMax < 2 ^ 32 := by decide
  rwa [UInt32.toNat_ofNat', Nat.mod_eq_of_lt (by omega)] at hsize

variable {size : Reader UInt8 Nat} {c bytes : QByteArray}

theorem reads_readBuffer (hsize : Reads size c bytes.length) (h : bytes.length ≤ intMax) :
    Reads (readBuffer size) (c ++ bytes) (some bytes) := by
  refine hsize.bind ?_
  rw [if_neg (by omega)]
  exact (reads_readRawData bytes).map some

theorem reads_skipBuffer (hsize : Reads size c bytes.length) (h : bytes.length ≤ intMax) :
    Reads (skipBuffer size) (c ++ bytes) true := by
  refine hsize.bind ?_
  rw [if_neg (by omega)]
  exact (Reads.skip bytes).map (fun _ => true)

end Buffers

/-! ## Sizes

No part is larger than the blob, so what `checkSize` accepts as a whole it accepts in parts. -/

section Sizes

variable {α : Type} {f : α → QByteArray} {l : List α}

theorem length_le_of_mem {x : α} (hx : x ∈ l) : (f x).length ≤ (l.flatMap f).length := by
  rw [List.flatMap_def]
  exact (List.sublist_flatten_of_mem (List.mem_map_of_mem hx)).length_le

theorem count_le (h : ∀ x, f x ≠ []) : l.length ≤ (l.flatMap f).length := by
  rw [List.length_flatMap, ← List.length_map (fun x => (f x).length)]
  refine List.length_le_sum_of_one_le _ (fun n hn => ?_)
  obtain ⟨x, -, rfl⟩ := List.mem_map.1 hn
  exact List.length_pos_of_ne_nil (h x)

variable (bigEndian : Bool)

theorem Layout.length_counted : (Layout.counted bigEndian f l).length = 4 + (l.flatMap f).length := by
  rw [Layout.counted, List.length_append, Layout.length_i32]

theorem Layout.length_buffer64 (bytes : QByteArray) : (Layout.buffer64 bigEndian bytes).length = 8 + bytes.length := by
  rw [Layout.buffer64, List.length_append, Layout.length_u64]

theorem Layout.length_buffer32 (bytes : QByteArray) : (Layout.buffer32 bigEndian bytes).length = 4 + bytes.length := by
  rw [Layout.buffer32, List.length_append, Layout.length_u32]

end Sizes

namespace PerfTracingData

/-! ## Sections without events -/

/-- The formats are the same, and how they are read. -/
def SameFormats (t t' : PerfTracingData) : Prop := t'.fileLongSize = t.fileLongSize ∧ t'.eventFormats = t.eventFormats

theorem sameFormats_foldl {f : PerfTracingData → QByteArray → PerfTracingData} (h : ∀ t line, SameFormats t (f t line)) :
    ∀ (lines : List QByteArray) (t : PerfTracingData), SameFormats t (lines.foldl f t)
  | [], _ => ⟨rfl, rfl⟩
  | line :: lines, t => by
    obtain ⟨hlong, hformats⟩ := sameFormats_foldl h lines (f t line)
    exact ⟨hlong.trans (h t line).1, hformats.trans (h t line).2⟩

theorem sameFormats_addHeaderFields (t : PerfTracingData) (buffer : QByteArray) :
    SameFormats t (addHeaderFields t buffer) := by
  refine sameFormats_foldl (fun t line => ?_) _ t
  split <;> exact ⟨rfl, rfl⟩

theorem sameFormats_addPrintk (t : PerfTracingData) (line : QByteArray) : SameFormats t (addPrintk t line) := by
  unfold addPrintk
  repeat' split
  all_goals exact ⟨rfl, rfl⟩

/-! ## Steps -/

/-- A format as it is read from its text. -/
def formatOf (fileLongSize : Bool) (p : QByteArray × TraceEvent) : EventFormat :=
  (FormatReading.read fileLongSize p.1 p.2.text).event

/-- The formats with one more. -/
def insertFormat (fileLongSize : Bool) (formats : QHash Int32 EventFormat) (p : QByteArray × TraceEvent) :
    QHash Int32 EventFormat := formats.insert p.2.id (formatOf fileLongSize p)

/-- The step takes exactly these bytes, and adds exactly these formats. -/
def Adds (f : Step) (c : QByteArray) (events : List (QByteArray × TraceEvent)) : Prop :=
  ∀ t, ∃ t', Reads (f t) c (true, t') ∧ t'.fileLongSize = t.fileLongSize ∧
    t'.eventFormats = events.foldl (insertFormat t.fileLongSize) t.eventFormats

namespace Adds

variable {f : Step} {fs : List Step} {c d : QByteArray} {l l' : List (QByteArray × TraceEvent)}

theorem steps_nil : Adds (steps []) [] [] := fun t => ⟨t, .pure _, rfl, rfl⟩

theorem steps_cons (h : Adds f c l) (hfs : Adds (steps fs) d l') : Adds (steps (f :: fs)) (c ++ d) (l ++ l') := by
  intro t
  obtain ⟨t', hreads, hlong, hformats⟩ := h t
  obtain ⟨t'', hreads', hlong', hformats'⟩ := hfs t'
  refine ⟨t'', hreads.steps_cons hreads', hlong'.trans hlong, ?_⟩
  rw [hformats', hformats, hlong, List.foldl_append]

theorem replicate {α : Type} {enc : α → QByteArray} {g : α → List (QByteArray × TraceEvent)} : ∀ {l : List α},
    (∀ x ∈ l, Adds f (enc x) (g x)) → Adds (steps (List.replicate l.length f)) (l.flatMap enc) (l.flatMap g)
  | [], _ => steps_nil
  | x :: l, h => by
    rw [List.flatMap_cons, List.flatMap_cons]
    exact (h x List.mem_cons_self).steps_cons (replicate (fun y hy => h y (List.mem_cons_of_mem _ hy)))

variable {size : Reader UInt8 Nat} {bytes : QByteArray} (bigEndian : Bool)

theorem readMagic (magic : QByteArray) : Adds (readMagic magic) magic [] := fun t =>
  ⟨t, (((reads_readRawData magic).map (fun read => read == magic)).map (fun ok => (ok, t))).of_eq rfl
    (by rw [beq_self_eq_true]), rfl, rfl⟩

theorem readSection {f : PerfTracingData → QByteArray → PerfTracingData} (hsize : Reads size c bytes.length)
    (h : bytes.length ≤ intMax)
    (hf : ∀ t, SameFormats t (f t bytes)) :
    Adds (readSection size f) (c ++ bytes) [] := fun t =>
  ⟨f t bytes, (reads_readBuffer hsize h).map _, (hf t).1, (hf t).2⟩

theorem skipSection (hsize : Reads size c bytes.length) (h : bytes.length ≤ intMax) :
    Adds (skipSection size) (c ++ bytes) [] := fun t => ⟨t, (reads_skipBuffer hsize h).map _, rfl, rfl⟩

/-- **A format is added under its id.** -/
theorem readEventFormat (system : QByteArray) {e : TraceEvent} (h : e.text.length ≤ intMax) :
    Adds (readEventFormat bigEndian system) (Layout.buffer64 bigEndian e.text) [(system, e)] := by
  intro t
  refine ⟨{ t with eventFormats := insertFormat t.fileLongSize t.eventFormats (system, e) }, ?_, rfl, rfl⟩
  refine ((reads_readBuffer (reads_size64 bigEndian h) h).bind (d := []) ?_).of_eq (List.append_nil _).symm rfl
  dsimp only
  rw [insertFormat, formatOf, FormatReading.read_text]
  exact .pure _

theorem readCounted {α : Type} {enc : α → QByteArray} {g : α → List (QByteArray × TraceEvent)} {l : List α}
    (hcount : l.length ≤ intMax) (h : ∀ x ∈ l, Adds f (enc x) (g x)) :
    Adds (readCounted bigEndian f) (Layout.counted bigEndian enc l) (l.flatMap g) := by
  intro t
  obtain ⟨t', hreads, hlong, hformats⟩ := replicate h t
  refine ⟨t', (Layout.reads_i32 bigEndian (Int32.ofNat l.length)).bind ?_, hlong, hformats⟩
  have hmax : intMax < 2 ^ 31 := by decide
  rw [Int32.toInt_ofNat_of_lt (by omega), Int.toNat_natCast]
  exact hreads

/-- **The formats of a system are added.** -/
theorem readEventFormats (system : QByteArray) {l : List TraceEvent}
    (h : (Layout.events bigEndian l).length ≤ intMax) :
    Adds (readEventFormats bigEndian system) (Layout.events bigEndian l) (l.map (fun e => (system, e))) := by
  rw [Layout.events, Layout.length_counted] at h
  have hcount : l.length ≤ (l.flatMap (fun e => Layout.buffer64 bigEndian e.text)).length := by
    refine count_le (fun e hnil => ?_)
    have hlen := Layout.length_buffer64 bigEndian e.text
    rw [hnil, List.length_nil] at hlen
    omega
  rw [List.map_eq_flatMap]
  refine readCounted bigEndian (by omega) (fun e he => readEventFormat bigEndian system ?_)
  have hle := length_le_of_mem (f := fun e => Layout.buffer64 bigEndian e.text) he
  have hlen := Layout.length_buffer64 bigEndian e.text
  omega

/-- **The formats of all systems are added.** -/
theorem readEventFiles {l : List TraceSystem} (h : (Layout.systems bigEndian l).length ≤ intMax) :
    Adds (readEventFiles bigEndian) (Layout.systems bigEndian l)
      (l.flatMap (fun s => s.events.map (fun e => (s.name.val, e)))) := by
  rw [Layout.systems, Layout.length_counted] at h
  have hcount : l.length ≤
      (l.flatMap (fun s => s.name.val ++ [0] ++ Layout.events bigEndian s.events)).length := by
    refine count_le (fun s => ?_)
    rw [List.append_assoc]
    exact List.append_ne_nil_of_right_ne_nil _ (List.cons_ne_nil _ _)
  refine readCounted bigEndian (by omega) (fun s hs t => ?_)
  have hle := length_le_of_mem (f := fun s => s.name.val ++ [0] ++ Layout.events bigEndian s.events) hs
  rw [List.length_append] at hle
  obtain ⟨t', hreads, hlong, hformats⟩ := readEventFormats bigEndian s.name.val (l := s.events) (by omega) t
  have hname : ∀ c ∈ s.name.val, (c == 0) = false := fun c hc =>
    beq_false_of_ne (fun h0 => s.name.property (h0 ▸ hc))
  exact ⟨t', (Reads.untilStop hname (beq_self_eq_true 0)).bind hreads, hlong, hformats⟩

end Adds

/-! ## The whole blob -/

variable (b : TraceBlob)

theorem adds_readHeaderFiles (hpage : b.headerPage.length ≤ intMax) (hevent : b.headerEvent.length ≤ intMax) :
    Adds (readHeaderFiles b.bigEndian)
      (QByteArray.ofString "header_page" ++ [0] ++ (Layout.buffer64 b.bigEndian b.headerPage ++
        (QByteArray.ofString "header_event" ++ [0] ++ (Layout.buffer64 b.bigEndian b.headerEvent ++ [])))) [] :=
  (Adds.readMagic _).steps_cons
    ((Adds.readSection (reads_size64 b.bigEndian hpage) hpage (fun t => sameFormats_addHeaderFields t _)).steps_cons
      ((Adds.readMagic _).steps_cons
        ((Adds.skipSection (reads_size64 b.bigEndian hevent) hevent).steps_cons Adds.steps_nil)))

/-- The saved command lines, where the version has them. -/
theorem adds_savedCmdlines
    (h : ∀ part ∈ (if b.version.val.toFloatAtLeast06 then [Layout.buffer64 b.bigEndian b.cmdlines] else []),
      part.length ≤ intMax) :
    Adds (Reader.steps (if b.version.val.toFloatAtLeast06 then [readSavedCmdline b.bigEndian] else []))
      (if b.version.val.toFloatAtLeast06 then [Layout.buffer64 b.bigEndian b.cmdlines] else []).flatten [] := by
  generalize b.version.val.toFloatAtLeast06 = present at h ⊢
  cases present with
  | false => exact Adds.steps_nil
  | true =>
    have hcmdlines := h _ List.mem_cons_self
    rw [Layout.length_buffer64] at hcmdlines
    have hle : b.cmdlines.length ≤ intMax := by omega
    exact (Adds.readSection (reads_size64 b.bigEndian hle) hle (fun _ => ⟨rfl, rfl⟩)).steps_cons Adds.steps_nil

/-- **The sections of a blob add its events.** -/
theorem adds_readSections (h : b.sections.flatten.length ≤ intMax) :
    Adds (readSections b.bigEndian b.version.val) b.sections.flatten b.events := by
  have hparts : ∀ part ∈ b.sections, part.length ≤ intMax := fun part hpart =>
    (List.sublist_flatten_of_mem hpart).length_le.trans h
  simp only [TraceBlob.sections, List.forall_mem_append, List.forall_mem_cons] at hparts
  obtain ⟨⟨-, hpage, -, hevent, hftrace, hsystems, hkallsyms, hprintk, -⟩, hcmdlines⟩ := hparts
  rw [Layout.length_buffer64] at hpage hevent
  rw [Layout.length_buffer32] at hkallsyms hprintk
  have hkallsyms' : b.kallsyms.length ≤ intMax := by omega
  have hprintk' : b.printk.length ≤ intMax := by omega
  have hreads := (adds_readHeaderFiles b (by omega) (by omega)).steps_cons
    ((Adds.readEventFormats b.bigEndian (QByteArray.ofString "ftrace") hftrace).steps_cons
      ((Adds.readEventFiles b.bigEndian hsystems).steps_cons
        ((Adds.skipSection (reads_size32 b.bigEndian hkallsyms') hkallsyms').steps_cons
          ((Adds.readSection (f := fun t buffer => (buffer.splitOn 10).foldl addPrintk t)
            (reads_size32 b.bigEndian hprintk') hprintk'
              (fun t => sameFormats_foldl sameFormats_addPrintk _ t)).steps_cons
              (adds_savedCmdlines b hcmdlines)))))
  simpa only [TraceBlob.sections, TraceBlob.events, readSections, readProcKallsyms, readFtracePrintk, List.flatten_append,
    List.flatten_cons, List.flatten_nil, List.append_assoc, List.nil_append, List.append_nil, List.cons_append,
    Layout.buffer32] using hreads

theorem reads_byte (c : UInt8) : Reads (Reader.number false 1) [c] c.toNat := by
  have hreads := Reads.number false (k := 1) (n := c.toNat) c.toNat_lt
  have hbytes : encode false 1 c.toNat = [c] := by
    show [UInt8.ofNat c.toNat] = [c]
    rw [UInt8.ofNat_toNat]
  rwa [hbytes] at hreads

theorem toNat_bne_zero (c : UInt8) : (c.toNat != 0) = (c != 0) := by
  rw [Bool.eq_iff_iff, bne_iff_ne, bne_iff_ne, Ne, Ne, ← UInt8.toNat_inj]
  rfl

/-- The record with what stands before the sections. -/
def withPreamble (t : PerfTracingData) : PerfTracingData :=
  { t with
    version := b.version.val, bigEndian := b.bigEndian, fileLongSize := b.longSize != 0, filePageSize := b.pageSize }

theorem reads_readPreamble (t : PerfTracingData) : Reads (readPreamble t) b.preamble (withPreamble b t) := by
  have hversion : ∀ c ∈ b.version.val, (c == 0) = false := fun c hc =>
    beq_false_of_ne (fun h0 => b.version.property (h0 ▸ hc))
  have hresult : withPreamble b t =
      { t with
        version := b.version.val, bigEndian := b.endianness.toNat != 0, fileLongSize := b.longSize.toNat != 0
        filePageSize := b.pageSize } := by
    rw [toNat_bne_zero, toNat_bne_zero]
    rfl
  rw [hresult]
  refine (Reads.untilStop hversion (beq_self_eq_true 0)).bind ((reads_byte _).bind ((reads_byte _).bind ?_))
  rw [TraceBlob.bigEndian, ← toNat_bne_zero]
  exact (Layout.reads_i32 _ b.pageSize).map _

/-- **What is read of a blob are its events.** -/
theorem parse_bytes (t : PerfTracingData) (h : b.bytes.length ≤ intMax) :
    (parse t b.bytes).eventFormats = b.events.foldl (insertFormat (b.longSize != 0)) t.eventFormats := by
  have hsections : b.sections.flatten.length ≤ intMax := by
    rw [TraceBlob.bytes, List.length_append, List.length_append, List.length_append] at h
    omega
  obtain ⟨t', hreads, -, hformats⟩ := adds_readSections b hsections (withPreamble b t)
  have hread : Reads (read t) (tracingMagic ++ (b.preamble ++ b.sections.flatten)) t' := by
    refine ((reads_readRawData tracingMagic).map (fun read => read == tracingMagic)).bind ?_
    rw [beq_self_eq_true, if_pos rfl]
    exact (reads_readPreamble b t).bind (hreads.map Prod.snd)
  have hbytes : b.bytes = tracingMagic ++ (b.preamble ++ b.sections.flatten) ++ b.padding := by
    rw [TraceBlob.bytes, List.append_assoc, List.append_assoc]
  rw [parse, hbytes, hread b.padding]
  exact hformats

end PerfTracingData

/-- What a format with this text is read as. -/
structure TraceEvent.Describes (system : QByteArray) (e : TraceEvent) (format : EventFormat) : Prop where
  system : format.system = system
  name : format.name = e.name.text
  commonFields : List.Forall₂ TraceField.Describes e.commonFields format.commonFields
  fields : List.Forall₂ TraceField.Describes e.fields format.fields

theorem describes_readFields (fileLongSize : Bool) (fields : List TraceField) :
    List.Forall₂ TraceField.Describes fields (FormatReading.readFields fileLongSize fields) := by
  rw [FormatReading.readFields, List.forall₂_map_right_iff, List.forall₂_same]
  exact fun f _ => f.describes_readFormatField fileLongSize

theorem describes_formatOf (fileLongSize : Bool) (p : QByteArray × TraceEvent) :
    p.2.Describes p.1 (PerfTracingData.formatOf fileLongSize p) := by
  rw [PerfTracingData.formatOf, FormatReading.read_text]
  exact ⟨rfl, rfl, describes_readFields fileLongSize _, describes_readFields fileLongSize _⟩

/-- **Tracing data are read back**: the formats are under exactly the ids that were written, each with its system, its
name and its fields. -/
theorem readTracingData_formats {δ : Type} (E : Env δ) (b : TraceBlob) (hdistinct : (b.events.map (·.2.id)).Nodup)
    (hsize : b.bytes.length ≤ intMax) :
    ∃ t, Reads (PerfData.readTracingData { E with parseTracingData := PerfTracingData.parse }
        { size := UInt32.ofNat b.bytes.length }) b.bytes t ∧
      (∀ id, t.eventFormats.contains id = true ↔ id ∈ b.events.map (·.2.id)) ∧
      ∀ p ∈ b.events, ∃ format, t.eventFormats.find p.2.id = some format ∧ p.2.Describes p.1 format := by
  have hmax : intMax < 2 ^ 32 := by decide
  have hlength : (UInt32.ofNat b.bytes.length).toNat = b.bytes.length := by
    rw [UInt32.toNat_ofNat', Nat.mod_eq_of_lt (by omega)]
  have hformats := PerfTracingData.parse_bytes b { size := UInt32.ofNat b.bytes.length } hsize
  refine ⟨PerfTracingData.parse { size := UInt32.ofNat b.bytes.length } b.bytes, ?_, fun id => ?_, fun p hp => ?_⟩
  · rw [PerfData.readTracingData]
    dsimp only
    rw [hlength, if_neg (by omega)]
    exact (reads_readRawData b.bytes).map _
  · rw [hformats]
    refine (Bool.eq_iff_iff.1 (QHash.contains_foldl_insert _ _ id b.events _)).trans ?_
    rw [Bool.or_eq_true, List.contains_iff_mem]
    exact or_iff_right Bool.false_ne_true
  · rw [hformats]
    exact ⟨_, QHash.find_foldl_insert (fun p => p.2.id) _ _ hdistinct hp, describes_formatOf _ p⟩

/-- Tracing data of two events with a field each, one of them a text of four bytes. -/
def twoEvents : TraceBlob where
  version := ⟨[48, 46, 54], by decide⟩
  endianness := 1
  longSize := 8
  pageSize := 4096
  headerPage := []
  headerEvent := []
  ftrace :=
    [{ name := .ofText [102] (by decide), id := 3
       commonFields := [⟨[.ofText [105] (by decide)], .ofText [97] (by decide), none, 0, 4, true⟩]
       fields := [], printFmt := ⟨[], by decide⟩ }]
  systems :=
    [{ name := ⟨[115], by decide⟩
       events :=
        [{ name := .ofText [119] (by decide), id := -7, commonFields := []
           fields := [⟨[.ofText [99, 104, 97, 114] (by decide)],
              .ofText [98] (by decide), some ⟨4, by decide⟩, 8, 4, false⟩]
           printFmt := ⟨[58], by decide⟩ }] }]
  kallsyms := []
  printk := []
  cmdlines := []
  padding := [0]

theorem twoEvents_formats :
    ∃ t, Reads (PerfData.readTracingData { PerfData.plainEnv false with parseTracingData := PerfTracingData.parse }
        { size := UInt32.ofNat twoEvents.bytes.length }) twoEvents.bytes t ∧
      (∀ id, t.eventFormats.contains id = true ↔ id ∈ twoEvents.events.map (·.2.id)) ∧
      ∀ p ∈ twoEvents.events, ∃ format, t.eventFormats.find p.2.id = some format ∧ p.2.Describes p.1 format :=
  readTracingData_formats (PerfData.plainEnv false) twoEvents (by decide) (by decide +kernel)

end PerfParser
