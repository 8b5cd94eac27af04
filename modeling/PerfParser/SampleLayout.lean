import PerfParser.ReadRecords
/-!
# SampleLayout — samples as `perfdata.h` documents them, and back

A sample is a sequence of sections, each there when its bit of the sample type is set.  Two of them the decoder reads as
the kernel writes them and not as the comment has them: without an abi there are no registers, and without a stack there
is no `dyn_size`.
-/
namespace PerfParser

open PerfEventAttributes Reader

variable (bigEndian : Bool)

/-! ## The layout -/

namespace Layout

/-- A number of numbers, and the numbers. -/
def u64s (l : List UInt64) : QByteArray := u64 bigEndian (UInt64.ofNat l.length) ++ l.flatMap (u64 bigEndian)

def counterId (format : UInt64) (c : ReadFormat) : QByteArray :=
  (if format &&& FORMAT_ID != 0 then u64 bigEndian c.id else [])
    ++ (if format &&& FORMAT_LOST != 0 then u64 bigEndian c.lost else [])

def counter (format : UInt64) (c : ReadFormat) : QByteArray := u64 bigEndian c.value ++ counterId bigEndian format c

/-- `struct read_format`. -/
def values (format timeEnabled timeRunning : UInt64) (counters : List ReadFormat) : QByteArray :=
  let times := (if format &&& FORMAT_TOTAL_TIME_ENABLED != 0 then u64 bigEndian timeEnabled else [])
    ++ (if format &&& FORMAT_TOTAL_TIME_RUNNING != 0 then u64 bigEndian timeRunning else [])
  if format &&& FORMAT_GROUP != 0 then
    u64 bigEndian (UInt64.ofNat counters.length) ++ (times ++ counters.flatMap (counter bigEndian format))
  else u64 bigEndian (counters.headD {}).value ++ (times ++ counterId bigEndian format (counters.headD {}))

def rawSection (data : QByteArray) : QByteArray := u32 bigEndian (UInt32.ofNat data.length) ++ data

def branchEntry (e : BranchEntry) : QByteArray :=
  u64 bigEndian e.source ++ (u64 bigEndian e.target ++ u64 bigEndian e.flags)

def lbr (l : List BranchEntry) : QByteArray :=
  u64 bigEndian (UInt64.ofNat l.length) ++ l.flatMap (branchEntry bigEndian)

def regsUser (abi : UInt64) (registers : List UInt64) : QByteArray :=
  u64 bigEndian abi ++ registers.flatMap (u64 bigEndian)

def stackUser (data : QByteArray) (dynSize : UInt64) : QByteArray :=
  u64 bigEndian (UInt64.ofNat data.length) ++ (data ++ u64 bigEndian dynSize)

/-- The sections of `PERF_RECORD_SAMPLE`, with the given ones for the registers and the stack. -/
def sampleSections (attrs : PerfEventAttributes) (s : PerfRecordSample) (regs stack : QByteArray) : List QByteArray :=
  [ if attrs.sampleType &&& SAMPLE_IDENTIFIER != 0 then u64 bigEndian s.sampleId.id else [],
    if attrs.sampleType &&& SAMPLE_IP != 0 then u64 bigEndian s.ip else [],
    if attrs.sampleType &&& SAMPLE_TID != 0 then i32 bigEndian s.sampleId.pid ++ i32 bigEndian s.sampleId.tid else [],
    if attrs.sampleType &&& SAMPLE_TIME != 0 then u64 bigEndian s.sampleId.time else [],
    if attrs.sampleType &&& SAMPLE_ADDR != 0 then u64 bigEndian s.addr else [],
    if attrs.sampleType &&& SAMPLE_ID != 0 then u64 bigEndian s.sampleId.id else [],
    if attrs.sampleType &&& SAMPLE_STREAM_ID != 0 then u64 bigEndian s.sampleId.streamId else [],
    if attrs.sampleType &&& SAMPLE_CPU != 0 then u32 bigEndian s.sampleId.cpu ++ u32 bigEndian s.sampleId.res else [],
    if attrs.sampleType &&& SAMPLE_PERIOD != 0 then u64 bigEndian s.period else [],
    if attrs.sampleType &&& SAMPLE_READ != 0 then
      values bigEndian attrs.readFormat s.timeEnabled s.timeRunning s.readFormats else [],
    if attrs.sampleType &&& SAMPLE_CALLCHAIN != 0 then u64s bigEndian s.callchain else [],
    if attrs.sampleType &&& SAMPLE_RAW != 0 then rawSection bigEndian s.rawData else [],
    if attrs.sampleType &&& SAMPLE_BRANCH_STACK != 0 then lbr bigEndian s.branchStack else [],
    if attrs.sampleType &&& SAMPLE_REGS_USER != 0 then regs else [],
    if attrs.sampleType &&& SAMPLE_STACK_USER != 0 then stack else [],
    if attrs.sampleType &&& SAMPLE_WEIGHT != 0 then u64 bigEndian s.weight else [],
    if attrs.sampleType &&& SAMPLE_DATA_SRC != 0 then u64 bigEndian s.dataSrc else [],
    if attrs.sampleType &&& SAMPLE_TRANSACTION != 0 then u64 bigEndian s.transaction else [] ]

end Layout

namespace PerfRecordSample

open Layout

/-- `PERF_RECORD_SAMPLE` to the letter, with `s.userStack` for the whole stack of which `dynSize` bytes are in use. -/
def documentedLayout (attrs : PerfEventAttributes) (dynSize : UInt64) (s : PerfRecordSample) : QByteArray :=
  (sampleSections bigEndian attrs s (regsUser bigEndian s.registerAbi s.registers)
    (stackUser bigEndian s.userStack dynSize)).flatten

/-- `PERF_RECORD_SAMPLE` as it is written: registers with an abi only, and `dyn_size` with a stack only. -/
def layout (attrs : PerfEventAttributes) (dynSize : UInt64) (s : PerfRecordSample) : QByteArray :=
  (sampleSections bigEndian attrs s
    (if s.registerAbi = 0 then u64 bigEndian 0 else regsUser bigEndian s.registerAbi s.registers)
    (if s.userStack = [] then u64 bigEndian 0 else stackUser bigEndian s.userStack dynSize)).flatten

/-- What the attributes of the sample ask of it. -/
structure Encodable (attrs : PerfEventAttributes) (dynSize : UInt64) (s : PerfRecordSample) : Prop where
  formatId : attrs.sampleType &&& SAMPLE_READ ≠ 0 → attrs.readFormat &&& FORMAT_ID ≠ 0
  single : attrs.sampleType &&& SAMPLE_READ ≠ 0 → attrs.readFormat &&& FORMAT_GROUP = 0 → s.readFormats.length = 1
  registers : attrs.sampleType &&& SAMPLE_REGS_USER ≠ 0 → s.registerAbi ≠ 0 →
    s.registers.length = popCount attrs.sampleRegsUser
  dynSize : attrs.sampleType &&& SAMPLE_STACK_USER ≠ 0 → dynSize.toNat ≤ s.userStack.length

/-- The sample that the decoder makes of the layout, with the flags of branches as `flags` has them. -/
def decoded (header : PerfEventHeader) (attrs : PerfEventAttributes) (dynSize : UInt64) (flags : UInt64 → UInt64)
    (s : PerfRecordSample) : PerfRecordSample :=
  let has := fun bit => attrs.sampleType &&& bit != 0
  let hasFormat := fun bit => has SAMPLE_READ && attrs.readFormat &&& bit != 0
  { header
    sampleId :=
      { pid := if has SAMPLE_TID then s.sampleId.pid else 0
        tid := if has SAMPLE_TID then s.sampleId.tid else 0
        time := if has SAMPLE_TIME then s.sampleId.time else 0
        id := if has SAMPLE_ID then s.sampleId.id else if has SAMPLE_IDENTIFIER then s.sampleId.id else 0
        streamId := if has SAMPLE_STREAM_ID then s.sampleId.streamId else 0
        cpu := if has SAMPLE_CPU then s.sampleId.cpu else 0
        res := 0
        sampleType := (PerfSampleId.create attrs.sampleType false).sampleType }
    readFormat := attrs.readFormat
    registerMask := attrs.sampleRegsUser
    ip := if has SAMPLE_IP then s.ip else 0
    addr := if has SAMPLE_ADDR then s.addr else 0
    period := if has SAMPLE_PERIOD then s.period else 0
    timeEnabled := if hasFormat FORMAT_TOTAL_TIME_ENABLED then s.timeEnabled else 0
    timeRunning := if hasFormat FORMAT_TOTAL_TIME_RUNNING then s.timeRunning else 0
    registerAbi := if has SAMPLE_REGS_USER then s.registerAbi else 0
    weight := if has SAMPLE_WEIGHT then s.weight else 0
    dataSrc := if has SAMPLE_DATA_SRC then s.dataSrc else 0
    transaction := if has SAMPLE_TRANSACTION then s.transaction else 0
    readFormats :=
      if has SAMPLE_READ then
        s.readFormats.map fun c => { c with lost := if attrs.readFormat &&& FORMAT_LOST != 0 then c.lost else 0 }
      else []
    callchain := if has SAMPLE_CALLCHAIN then s.callchain else []
    rawData := if has SAMPLE_RAW then s.rawData else []
    branchStack :=
      if has SAMPLE_BRANCH_STACK then s.branchStack.map fun e => { e with flags := flags e.flags } else []
    registers := if has SAMPLE_REGS_USER && s.registerAbi != 0 then s.registers else []
    userStack := if has SAMPLE_STACK_USER then s.userStack.take dynSize.toNat else [] }

/-! ## Sections of one number -/

variable (r : PerfRecordSample) (present : Bool)

theorem reads_readSampleId {f : PerfSampleId → Reader UInt8 PerfSampleId} {c : QByteArray} {s : PerfSampleId}
    (h : Reads (when present f r.sampleId) c s) :
    Reads (when present (readSampleId f) r) c { r with sampleId := s } := by
  have hmap : when present (readSampleId f) r = (fun s => { r with sampleId := s }) <$> when present f r.sampleId := by
    cases present <;> rfl
  rw [hmap]
  exact h.map _

theorem reads_readIp (ip : UInt64) :
    Reads (when present (readIp bigEndian) r) (if present then u64 bigEndian ip else [])
      { r with ip := if present then ip else r.ip } :=
  .when (g := fun b => { r with ip := if b then ip else r.ip }) ((reads_u64 bigEndian ip).map _) rfl

theorem reads_readAddr (addr : UInt64) :
    Reads (when present (readAddr bigEndian) r) (if present then u64 bigEndian addr else [])
      { r with addr := if present then addr else r.addr } :=
  .when (g := fun b => { r with addr := if b then addr else r.addr }) ((reads_u64 bigEndian addr).map _) rfl

theorem reads_readCpu (cpu res : UInt32) :
    Reads (when present (readCpu bigEndian) r) (if present then u32 bigEndian cpu ++ u32 bigEndian res else [])
      { r with sampleId := { r.sampleId with cpu := if present then cpu else r.sampleId.cpu } } :=
  .when (g := fun b => { r with sampleId := { r.sampleId with cpu := if b then cpu else r.sampleId.cpu } })
    ((reads_u32 bigEndian cpu).bind ((reads_u32 bigEndian res).map _)) rfl

theorem reads_readPeriod (period : UInt64) :
    Reads (when present (readPeriod bigEndian) r) (if present then u64 bigEndian period else [])
      { r with period := if present then period else r.period } :=
  .when (g := fun b => { r with period := if b then period else r.period }) ((reads_u64 bigEndian period).map _) rfl

theorem reads_readTimeEnabled (timeEnabled : UInt64) :
    Reads (when present (readTimeEnabled bigEndian) r) (if present then u64 bigEndian timeEnabled else [])
      { r with timeEnabled := if present then timeEnabled else r.timeEnabled } :=
  .when (g := fun b => { r with timeEnabled := if b then timeEnabled else r.timeEnabled })
    ((reads_u64 bigEndian timeEnabled).map _) rfl

theorem reads_readTimeRunning (timeRunning : UInt64) :
    Reads (when present (readTimeRunning bigEndian) r) (if present then u64 bigEndian timeRunning else [])
      { r with timeRunning := if present then timeRunning else r.timeRunning } :=
  .when (g := fun b => { r with timeRunning := if b then timeRunning else r.timeRunning })
    ((reads_u64 bigEndian timeRunning).map _) rfl

theorem reads_readWeight (weight : UInt64) :
    Reads (when present (readWeight bigEndian) r) (if present then u64 bigEndian weight else [])
      { r with weight := if present then weight else r.weight } :=
  .when (g := fun b => { r with weight := if b then weight else r.weight }) ((reads_u64 bigEndian weight).map _) rfl

theorem reads_readDataSrc (dataSrc : UInt64) :
    Reads (when present (readDataSrc bigEndian) r) (if present then u64 bigEndian dataSrc else [])
      { r with dataSrc := if present then dataSrc else r.dataSrc } :=
  .when (g := fun b => { r with dataSrc := if b then dataSrc else r.dataSrc }) ((reads_u64 bigEndian dataSrc).map _) rfl

theorem reads_readTransaction (transaction : UInt64) :
    Reads (when present (readTransaction bigEndian) r) (if present then u64 bigEndian transaction else [])
      { r with transaction := if present then transaction else r.transaction } :=
  .when (g := fun b => { r with transaction := if b then transaction else r.transaction })
    ((reads_u64 bigEndian transaction).map _) rfl

/-! ## Sections with a length -/

theorem reads_readCallchain (l : List UInt64) (hlen : present = true → l.length < 2 ^ 64) :
    Reads (when present (readCallchain bigEndian) r) (if present then u64s bigEndian l else [])
      { r with callchain := if present then r.callchain ++ l else r.callchain } := by
  cases present with
  | false => exact .pure r
  | true =>
    refine (reads_u64 bigEndian (UInt64.ofNat l.length)).bind ?_
    rw [UInt64.toNat_ofNat_of_lt' (hlen rfl)]
    exact (reads_flatMap_u64 bigEndian l).map _

theorem reads_readRawSection (data : QByteArray) (hlen : present = true → data.length ≤ intMax) :
    Reads (when present (readRawSection bigEndian) r) (if present then rawSection bigEndian data else [])
      { r with rawData := if present then data else r.rawData } := by
  cases present with
  | false => exact .pure r
  | true =>
    have hsize : (UInt32.ofNat data.length).toNat = data.length :=
      UInt32.toNat_ofNat_of_lt (Nat.lt_of_le_of_lt (hlen rfl) (by decide))
    refine (reads_u32 bigEndian (UInt32.ofNat data.length)).bind ?_
    rw [hsize, if_neg (Nat.not_lt.2 (hlen rfl))]
    exact (Reads.raw 0 data).map _

/-- An entry of the branch stack on the host, which takes its flags as they stand. -/
def hostFlags (flags : UInt64) : UInt64 := UInt64.ofNat (ofBytes (u64 bigEndian flags))

theorem hostFlags_zero : hostFlags true 0 = 0 := by decide

theorem hostFlags_littleEndian (flags : UInt64) : hostFlags false flags = flags := by
  have hlt : flags.toNat < 256 ^ 8 := flags.toNat_lt
  have h := decode_encode false 8 flags.toNat
  rw [Nat.mod_eq_of_lt hlt] at h
  unfold hostFlags u64
  rw [show ofBytes (encode false 8 flags.toNat) = flags.toNat from h, UInt64.ofNat_toNat]

/-- The flags of the branches are as they were written, where the host has no other byte order or none is set. -/
theorem decoded_hostFlags {bigEndian : Bool} {s : PerfRecordSample}
    (h : bigEndian = true → ∀ e ∈ s.branchStack, e.flags = 0) (header : PerfEventHeader) (attrs : PerfEventAttributes)
    (dynSize : UInt64) : s.decoded header attrs dynSize (hostFlags bigEndian) = s.decoded header attrs dynSize id := by
  have hflags : ∀ e ∈ s.branchStack, hostFlags bigEndian e.flags = e.flags := fun e he => by
    cases bigEndian with
    | false => exact hostFlags_littleEndian e.flags
    | true => rw [h rfl e he, hostFlags_zero]
  have hmap : s.branchStack.map (fun e => { e with flags := hostFlags bigEndian e.flags }) =
      s.branchStack.map fun e => { e with flags := id e.flags } :=
    List.map_congr_left fun e he => by rw [hflags e he, id]
  unfold decoded
  dsimp only
  rw [hmap]

theorem reads_readBranchEntry (e : BranchEntry) :
    Reads (readBranchEntry bigEndian) (branchEntry bigEndian e) { e with flags := hostFlags bigEndian e.flags } := by
  have hflags := Reads.raw 0 (u64 bigEndian e.flags)
  rw [length_u64] at hflags
  exact (reads_u64 bigEndian e.source).bind <| (reads_u64 bigEndian e.target).bind <| hflags.map _

theorem reads_readBranchStack (l : List BranchEntry) (hlen : present = true → l.length < 2 ^ 64) :
    Reads (when present (readBranchStack bigEndian) r) (if present then lbr bigEndian l else [])
      { r with
        branchStack :=
          if present then r.branchStack ++ l.map (fun e => { e with flags := hostFlags bigEndian e.flags })
          else r.branchStack } := by
  cases present with
  | false => exact .pure r
  | true =>
    refine (reads_u64 bigEndian (UInt64.ofNat l.length)).bind ?_
    rw [UInt64.toNat_ofNat_of_lt' (hlen rfl)]
    exact (Reads.times (reads_readBranchEntry bigEndian) l).map _

theorem reads_readRegsUser {mask : UInt64} (hmask : r.registerMask = mask) (abi : UInt64) (registers : List UInt64)
    (hlen : present = true → abi ≠ 0 → registers.length = popCount mask) :
    Reads (when present (readRegsUser bigEndian) r)
      (if present then (if abi = 0 then u64 bigEndian 0 else regsUser bigEndian abi registers) else [])
      { r with
        registerAbi := if present then abi else r.registerAbi
        registers := if present && abi != 0 then r.registers ++ registers else r.registers } := by
  subst hmask
  cases present with
  | false => exact .pure r
  | true =>
    by_cases habi : abi = 0
    · subst habi
      refine Reads.of_eq ((reads_u64 bigEndian 0).bind (.pure _)) ?_ rfl
      rw [if_pos rfl, if_pos rfl, List.append_nil]
    · have hregisters := reads_flatMap_u64 bigEndian registers
      rw [hlen rfl habi] at hregisters
      have hne : (abi != 0) = true := bne_iff_ne.2 habi
      rw [if_pos rfl, if_neg habi]
      refine (reads_u64 bigEndian abi).bind ?_
      simp only [hne, when_true, Bool.true_and, if_true]
      exact hregisters.map _

theorem reads_readStackUser (hempty : r.userStack = []) (stack : QByteArray) (dynSize : UInt64)
    (hlen : present = true → stack.length ≤ intMax) (hdyn : present = true → dynSize.toNat ≤ stack.length) :
    Reads (when present (readStackUser bigEndian) r)
      (if present then (if stack = [] then u64 bigEndian 0 else stackUser bigEndian stack dynSize) else [])
      { r with userStack := if present then stack.take dynSize.toNat else r.userStack } := by
  cases present with
  | false => exact .pure r
  | true =>
    by_cases hstack : stack = []
    · subst hstack
      refine Reads.of_eq ((reads_u64 bigEndian 0).bind (.pure r)) ?_ ?_
      · rw [if_pos rfl, if_pos rfl, List.append_nil]
      · rw [if_pos rfl, List.take_nil, ← hempty]
    · have hsize : (UInt64.ofNat stack.length).toNat = stack.length :=
        UInt64.toNat_ofNat_of_lt' (Nat.lt_of_le_of_lt (hlen rfl) (by decide))
      have hpos : UInt64.ofNat stack.length > 0 := by
        rw [gt_iff_lt, UInt64.lt_iff_toNat_lt, hsize]
        exact List.length_pos_iff.2 hstack
      rw [if_pos rfl, if_neg hstack]
      refine (reads_u64 bigEndian (UInt64.ofNat stack.length)).bind ?_
      rw [hsize, if_neg (Nat.not_lt.2 (hlen rfl)), if_pos hpos]
      refine (Reads.raw 0 stack).bind <| Reads.of_eq ((reads_u64 bigEndian dynSize).map _) rfl ?_
      have hle : ¬dynSize > UInt64.ofNat stack.length := by
        rw [gt_iff_lt, UInt64.lt_iff_toNat_lt, hsize]
        exact Nat.not_lt.2 (hdyn rfl)
      simp only [if_neg hle, if_true]

/-! ## Values of counters -/

theorem reads_readCounterId {format : UInt64} (hid : format &&& FORMAT_ID ≠ 0) (value : UInt64) (c : ReadFormat) :
    Reads (readCounterId bigEndian (format &&& FORMAT_LOST != 0) { value }) (counterId bigEndian format c)
      { value, id := c.id, lost := if format &&& FORMAT_LOST != 0 then c.lost else 0 } := by
  refine Reads.of_eq ((reads_u64 bigEndian c.id).bind <|
    .when (g := fun b => { value, id := c.id, lost := if b then c.lost else 0 }) ((reads_u64 bigEndian c.lost).map _) rfl)
    ?_ rfl
  rw [counterId, if_pos (bne_iff_ne.2 hid)]

theorem reads_readCounter {format : UInt64} (hid : format &&& FORMAT_ID ≠ 0) (c : ReadFormat) :
    Reads (readCounter bigEndian (format &&& FORMAT_LOST != 0)) (counter bigEndian format c)
      { c with lost := if format &&& FORMAT_LOST != 0 then c.lost else 0 } :=
  (reads_u64 bigEndian c.value).bind (reads_readCounterId bigEndian hid c.value c)

theorem reads_readReadFormats {format : UInt64} (hformat : r.readFormat = format) (timeEnabled timeRunning : UInt64)
    (counters : List ReadFormat)
    (hid : present = true → format &&& FORMAT_ID ≠ 0) (hlen : present = true → counters.length < 2 ^ 64)
    (hsingle : present = true → format &&& FORMAT_GROUP = 0 → counters.length = 1) :
    Reads (when present (readReadFormats bigEndian) r)
      (if present then values bigEndian format timeEnabled timeRunning counters else [])
      { r with
        timeEnabled :=
          if present && format &&& FORMAT_TOTAL_TIME_ENABLED != 0 then timeEnabled else r.timeEnabled
        timeRunning :=
          if present && format &&& FORMAT_TOTAL_TIME_RUNNING != 0 then timeRunning else r.timeRunning
        readFormats :=
          if present then
            r.readFormats ++ counters.map fun c => { c with lost := if format &&& FORMAT_LOST != 0 then c.lost else 0 }
          else r.readFormats } := by
  subst hformat
  cases present with
  | false => exact .pure r
  | true =>
    unfold values
    simp only [if_true, Bool.true_and]
    by_cases hgroup : r.readFormat &&& FORMAT_GROUP = 0
    · obtain ⟨c, rfl⟩ := List.length_eq_one_iff.1 (hsingle rfl hgroup)
      have hno : (r.readFormat &&& FORMAT_GROUP != 0) = false := by simp [hgroup]
      rw [hno]
      refine (reads_u64 bigEndian c.value).bind <| Reads.of_eq
        ((reads_readTimeEnabled bigEndian r (r.readFormat &&& FORMAT_TOTAL_TIME_ENABLED != 0) timeEnabled).bind <|
        (reads_readTimeRunning bigEndian _ (r.readFormat &&& FORMAT_TOTAL_TIME_RUNNING != 0) timeRunning).bind ?_)
        (List.append_assoc _ _ _) rfl
      rw [if_neg (ne_true_of_eq_false hno)]
      exact (reads_readCounterId bigEndian (hid rfl) c.value c).map _
    · have hyes : (r.readFormat &&& FORMAT_GROUP != 0) = true := bne_iff_ne.2 hgroup
      rw [hyes]
      refine (reads_u64 bigEndian (UInt64.ofNat counters.length)).bind <| Reads.of_eq
        ((reads_readTimeEnabled bigEndian r (r.readFormat &&& FORMAT_TOTAL_TIME_ENABLED != 0) timeEnabled).bind <|
        (reads_readTimeRunning bigEndian _ (r.readFormat &&& FORMAT_TOTAL_TIME_RUNNING != 0) timeRunning).bind ?_)
        (List.append_assoc _ _ _) rfl
      rw [if_pos hyes, UInt64.toNat_ofNat_of_lt' (hlen rfl)]
      exact (Reads.times (fun c => reads_readCounter bigEndian (hid rfl) c) counters).map _

/-! ## The whole sample -/

theorem length_le_flatMap {α : Type} {f : α → QByteArray} (hf : ∀ x, 0 < (f x).length) : ∀ l : List α,
    l.length ≤ (l.flatMap f).length
  | [] => Nat.le_refl 0
  | x :: l => by
    have hl := length_le_flatMap hf l
    have hx := hf x
    rw [List.flatMap_cons, List.length_append, List.length_cons]
    omega

/-- What a record of at most `2 ^ 16` bytes has room for. -/
structure Fits (attrs : PerfEventAttributes) (s : PerfRecordSample) : Prop where
  readFormats : (attrs.sampleType &&& SAMPLE_READ != 0) = true → attrs.readFormat &&& FORMAT_GROUP ≠ 0 →
    s.readFormats.length < 2 ^ 16
  callchain : (attrs.sampleType &&& SAMPLE_CALLCHAIN != 0) = true → s.callchain.length < 2 ^ 16
  rawData : (attrs.sampleType &&& SAMPLE_RAW != 0) = true → s.rawData.length < 2 ^ 16
  branchStack : (attrs.sampleType &&& SAMPLE_BRANCH_STACK != 0) = true → s.branchStack.length < 2 ^ 16
  userStack : (attrs.sampleType &&& SAMPLE_STACK_USER != 0) = true → s.userStack.length < 2 ^ 16

theorem length_le_flatten {c : QByteArray} : ∀ {l : List QByteArray}, c ∈ l → c.length ≤ l.flatten.length
  | c' :: l, h => by
    rw [List.flatten_cons, List.length_append]
    rcases List.mem_cons.1 h with rfl | h
    · exact Nat.le_add_right _ _
    · exact Nat.le_trans (length_le_flatten h) (Nat.le_add_left _ _)

theorem length_section_lt {l : List QByteArray} (hlen : l.flatten.length < 2 ^ 16) {i : Nat} {p : Prop} [Decidable p]
    {c : QByteArray} (hi : l[i]? = some (if p then c else [])) (hp : p) : c.length < 2 ^ 16 := by
  have hle := length_le_flatten (List.mem_of_getElem? hi)
  rw [if_pos hp] at hle
  exact Nat.lt_of_le_of_lt hle hlen

theorem fits_of_length {attrs : PerfEventAttributes} {dynSize : UInt64} {s : PerfRecordSample}
    (hlen : (s.layout bigEndian attrs dynSize).length < 2 ^ 16) : s.Fits attrs := by
  constructor
  · intro hread hgroup
    have hcounter (c : ReadFormat) : 0 < (counter bigEndian attrs.readFormat c).length := by
      rw [counter, List.length_append, length_u64]
      omega
    have hcounters := length_le_flatMap hcounter s.readFormats
    have hsection := length_section_lt (i := 9) hlen rfl hread
    rw [values, if_pos (bne_iff_ne.2 hgroup), List.length_append, List.length_append] at hsection
    omega
  · intro hcallchain
    have hips := length_le_flatMap (f := u64 bigEndian) (fun n => by simp) s.callchain
    have hsection := length_section_lt (i := 10) hlen rfl hcallchain
    rw [u64s, List.length_append] at hsection
    omega
  · intro hraw
    have hsection := length_section_lt (i := 11) hlen rfl hraw
    rw [rawSection, List.length_append] at hsection
    omega
  · intro hbranch
    have hentries := length_le_flatMap (f := branchEntry bigEndian) (fun e => by simp [branchEntry]) s.branchStack
    have hsection := length_section_lt (i := 12) hlen rfl hbranch
    rw [lbr, List.length_append] at hsection
    omega
  · intro hstack
    have hsection := length_section_lt (i := 14) hlen rfl hstack
    by_cases hnil : s.userStack = []
    · rw [hnil]
      decide
    · rw [if_neg hnil, stackUser, List.length_append, List.length_append] at hsection
      omega

theorem has_sampleId_create (header : PerfEventHeader) (attrs : PerfEventAttributes) (bit : UInt64) :
    (create header attrs).sampleId.has bit = (attrs.sampleType &&& bit != 0) := by
  simp [create, PerfRecord.create, PerfSampleId.create, PerfSampleId.has]

/-- The decoder of a sample takes the layout, and keeps all of it but the reserved bytes behind the cpu. -/
theorem reads_read (header : PerfEventHeader) {attrs : PerfEventAttributes} {dynSize : UInt64} {s : PerfRecordSample}
    (h : s.Encodable attrs dynSize) (hfits : s.Fits attrs) :
    Reads ((create header attrs).read bigEndian) (s.layout bigEndian attrs dynSize)
      (s.decoded header attrs dynSize (hostFlags bigEndian)) := by
  unfold read
  simp only [has_sampleId_create]
  refine Reads.of_eq (
    (reads_readSampleId _ _ (PerfSampleId.reads_readId bigEndian _ _ s.sampleId.id)).section_cons <|
    (reads_readIp bigEndian _ _ s.ip).section_cons <|
    (reads_readSampleId _ _ (PerfSampleId.reads_readTid bigEndian _ _ s.sampleId.pid s.sampleId.tid)).section_cons <|
    (reads_readSampleId _ _ (PerfSampleId.reads_readTime bigEndian _ _ s.sampleId.time)).section_cons <|
    (reads_readAddr bigEndian _ _ s.addr).section_cons <|
    (reads_readSampleId _ _ (PerfSampleId.reads_readId bigEndian _ _ s.sampleId.id)).section_cons <|
    (reads_readSampleId _ _ (PerfSampleId.reads_readStreamId bigEndian _ _ s.sampleId.streamId)).section_cons <|
    (reads_readCpu bigEndian _ _ s.sampleId.cpu s.sampleId.res).section_cons <|
    (reads_readPeriod bigEndian _ _ s.period).section_cons <|
    (reads_readReadFormats bigEndian _ _ (rfl : _ = attrs.readFormat)
      s.timeEnabled s.timeRunning s.readFormats ?_ ?_ ?_).section_cons <|
    (reads_readCallchain bigEndian _ _ s.callchain ?_).section_cons <|
    (reads_readRawSection bigEndian _ _ s.rawData ?_).section_cons <|
    (reads_readBranchStack bigEndian _ _ s.branchStack ?_).section_cons <|
    (reads_readRegsUser bigEndian _ _ (rfl : _ = attrs.sampleRegsUser) s.registerAbi s.registers ?_).section_cons <|
    (reads_readStackUser bigEndian _ _ rfl s.userStack dynSize ?_ ?_).section_cons <|
    (reads_readWeight bigEndian _ _ s.weight).section_cons <|
    (reads_readDataSrc bigEndian _ _ s.dataSrc).section_cons <|
    (reads_readTransaction bigEndian _ _ s.transaction).section_last) rfl ?_
  · exact fun hread => h.formatId (bne_iff_ne.1 hread)
  · intro hread
    by_cases hgroup : attrs.readFormat &&& FORMAT_GROUP = 0
    · rw [h.single (bne_iff_ne.1 hread) hgroup]
      decide
    · exact Nat.lt_trans (hfits.readFormats hread hgroup) (by decide)
  · exact fun hread hgroup => h.single (bne_iff_ne.1 hread) hgroup
  · exact fun hcallchain => Nat.lt_trans (hfits.callchain hcallchain) (by decide)
  · exact fun hraw => Nat.le_of_lt (Nat.lt_trans (hfits.rawData hraw) (by decide))
  · exact fun hbranch => Nat.lt_trans (hfits.branchStack hbranch) (by decide)
  · exact fun hregs habi => h.registers (bne_iff_ne.1 hregs) habi
  · exact fun hstack => Nat.le_of_lt (Nat.lt_trans (hfits.userStack hstack) (by decide))
  · exact fun hstack => h.dynSize (bne_iff_ne.1 hstack)
  · rfl

theorem exists_id {attrs : PerfEventAttributes} (h : 0 ≤ attrs.sampleIdOffset) (s : PerfRecordSample)
    (regs stack : QByteArray) : ∃ front back,
      (sampleSections bigEndian attrs s regs stack).flatten = front ++ (u64 bigEndian s.sampleId.id ++ back)
        ∧ front.length = attrs.sampleIdOffset.toNat := by
  unfold sampleIdOffset at h ⊢
  by_cases hidentifier : (attrs.sampleType &&& SAMPLE_IDENTIFIER != 0) = true
  · refine ⟨[], ((sampleSections bigEndian attrs s regs stack).drop 1).flatten, ?_, by rw [if_pos hidentifier]; rfl⟩
    rw [List.nil_append, sampleSections, List.flatten_cons, if_pos hidentifier]
    rfl
  · rw [if_neg hidentifier] at h ⊢
    have hid : ¬(attrs.sampleType &&& SAMPLE_ID == 0) = true := fun hno => by
      rw [if_pos hno] at h
      exact absurd h (by decide)
    have hsection : (attrs.sampleType &&& SAMPLE_ID != 0) = true := by simpa using hid
    rw [if_neg hid]
    refine ⟨((sampleSections bigEndian attrs s regs stack).take 5).flatten,
      ((sampleSections bigEndian attrs s regs stack).drop 6).flatten, ?_, ?_⟩
    · have hsplit : sampleSections bigEndian attrs s regs stack
          = (sampleSections bigEndian attrs s regs stack).take 5
            ++ (if attrs.sampleType &&& SAMPLE_ID != 0 then u64 bigEndian s.sampleId.id else [])
              :: (sampleSections bigEndian attrs s regs stack).drop 6 := rfl
      conv => lhs; rw [hsplit]
      rw [List.flatten_append, List.flatten_cons, if_pos hsection]
    · unfold sampleSections
      simp only [List.take_succ_cons, List.take_zero, List.flatten_cons, List.flatten_nil, List.append_nil,
        List.length_append, apply_ite List.length, length_i32, length_u64, List.length_nil]
      rw [if_neg hidentifier]
      generalize (attrs.sampleType &&& SAMPLE_IP != 0) = ip, (attrs.sampleType &&& SAMPLE_TID != 0) = tid,
        (attrs.sampleType &&& SAMPLE_TIME != 0) = time, (attrs.sampleType &&& SAMPLE_ADDR != 0) = addr
      revert ip tid time addr
      decide

end PerfRecordSample

namespace PerfData

open QDataStream PerfRecordSample

variable {δ : Type} (E : Env δ)

/-- The sample is decoded with the attributes that its id belongs to. -/
theorem reads_readSample_of {d : PerfData δ} {attrs : PerfEventAttributes} {dynSize : UInt64} {s : PerfRecordSample}
    (hall : d.attributes.globalAttributes.sampleIdAll = true) (hoffset : 0 ≤ d.attributes.globalAttributes.sampleIdOffset)
    (hshared : attrs.sampleIdOffset = d.attributes.globalAttributes.sampleIdOffset)
    (hattrs : d.attributes.attributesOf s.sampleId.id = attrs) (h : s.Encodable attrs dynSize)
    (hlen : (s.layout E.bigEndian attrs dynSize).length = d.eventHeader.contentSize) :
    Reads (readSample E d) (s.layout E.bigEndian attrs dynSize)
      (d.dispatch (.sample (s.decoded d.eventHeader attrs dynSize (hostFlags E.bigEndian)))) := by
  have hroom : (s.layout E.bigEndian attrs dynSize).length < 2 ^ 16 := by
    rw [hlen]
    exact (d.eventHeader.size - PerfEventHeader.fixedLength).toNat_lt
  have hfits := fits_of_length E.bigEndian hroom
  obtain ⟨front, back, hlayout, hfront⟩ := exists_id E.bigEndian (hshared ▸ hoffset) s
    (if s.registerAbi = 0 then Layout.u64 E.bigEndian 0 else Layout.regsUser E.bigEndian s.registerAbi s.registers)
    (if s.userStack = [] then Layout.u64 E.bigEndian 0 else Layout.stackUser E.bigEndian s.userStack dynSize)
  have hpeek : ((u64 E.bigEndian).run (seekTo (s.layout E.bigEndian attrs dynSize)
      d.attributes.globalAttributes.sampleIdOffset.toNat)).1 = s.sampleId.id := by
    have hinside : front.length ≤ (front ++ (Layout.u64 E.bigEndian s.sampleId.id ++ back)).length := by
      rw [List.length_append]
      exact Nat.le_add_right _ _
    rw [← hshared, ← hfront, layout, hlayout, seekTo, if_pos hinside, List.drop_left,
      Layout.reads_u64 E.bigEndian s.sampleId.id back]
  unfold readSample
  simp only
  rw [if_pos ⟨hall, hoffset⟩, ← hlen]
  refine Reads.of_eq ((Reads.raw 0 _).bind (.pure _)) (List.append_nil _).symm ?_
  rw [hpeek, hattrs, (reads_read E.bigEndian d.eventHeader h hfits).run_eq]

/-- The sample is decoded with the attributes registered for its id. -/
theorem reads_readSample {d : PerfData δ} {attrs : PerfEventAttributes} {dynSize : UInt64} {s : PerfRecordSample}
    (hall : d.attributes.globalAttributes.sampleIdAll = true) (hoffset : 0 ≤ d.attributes.globalAttributes.sampleIdOffset)
    (hshared : attrs.sampleIdOffset = d.attributes.globalAttributes.sampleIdOffset)
    (hid : d.attributes.attributes.find s.sampleId.id = some attrs) (h : s.Encodable attrs dynSize)
    (hlen : (s.layout E.bigEndian attrs dynSize).length = d.eventHeader.contentSize) :
    Reads (readSample E d) (s.layout E.bigEndian attrs dynSize)
      (d.dispatch (.sample (s.decoded d.eventHeader attrs dynSize (hostFlags E.bigEndian)))) :=
  reads_readSample_of E hall hoffset hshared (by rw [PerfAttributes.attributesOf, hid, Option.getD_some]) h hlen

/-- **A sample is decoded with the attributes registered for its id, to the fields that were encoded**, and the record
is taken to its end.  What becomes of the flags of branches in a big-endian stream is left open. -/
theorem processEvents_sample (depth : Nat) (sequential : Bool) {d : PerfData δ} {header : PerfEventHeader}
    {attrs : PerfEventAttributes} {dynSize : UInt64} {s : PerfRecordSample} (h0 : d.eventHeader.size = 0)
    (htype : header.eventType = .sample)
    (hsize : header.size.toNat = 8 + (s.layout E.bigEndian attrs dynSize).length)
    (hall : d.attributes.globalAttributes.sampleIdAll = true) (hoffset : 0 ≤ d.attributes.globalAttributes.sampleIdOffset)
    (hshared : attrs.sampleIdOffset = d.attributes.globalAttributes.sampleIdOffset)
    (hid : d.attributes.attributes.find s.sampleId.id = some attrs) (h : s.Encodable attrs dynSize) (rest : QByteArray) :
    ∃ flags : UInt64 → UInt64, (E.bigEndian = false → flags = id)
      ∧ ((create header attrs).read E.bigEndian).run (s.layout E.bigEndian attrs dynSize)
        = (s.decoded header attrs dynSize flags, [])
      ∧ processEvents E depth sequential
          ⟨d, Layout.header E.bigEndian header ++ (s.layout E.bigEndian attrs dynSize ++ rest)⟩
        = (.SignalFinished,
          ⟨clearEventSize (dispatch { d with eventHeader := header }
            (.sample (s.decoded header attrs dynSize flags))), rest⟩) := by
  obtain ⟨hheader, hcontent⟩ := contentSize_of_size hsize
  have hroom : (s.layout E.bigEndian attrs dynSize).length < 2 ^ 16 := by
    have := header.size.toNat_lt
    omega
  have hread : Reads (readEvent E { d with eventHeader := header }) (s.layout E.bigEndian attrs dynSize)
      (dispatch { d with eventHeader := header } (.sample (s.decoded header attrs dynSize (hostFlags E.bigEndian)))) := by
    have hsample := reads_readSample E (d := { d with eventHeader := header }) hall hoffset hshared hid h hcontent.symm
    intro more
    unfold readEvent
    simp only [htype]
    exact hsample more
  obtain ⟨nested, hnested⟩ := exists_nested E depth
  refine ⟨hostFlags E.bigEndian, fun hlittle => ?_, ?_, ?_⟩
  · rw [hlittle]
    exact funext hostFlags_littleEndian
  · exact (reads_read E.bigEndian header h (fits_of_length E.bigEndian hroom)).run_eq
  · rw [hnested]
    exact processEvent_record E h0 hheader (by rw [htype]; decide) (by rw [htype]; decide) hcontent.symm hread rest

/-- The parser with one event registered, for samples with these bits. -/
def sampling (bits : UInt64) : PerfData Unit where
  attributes :=
    { globalAttributes := { sampleType := bits, flags := (1 : UInt64) <<< 18 }
      attributes :=
        [(3, { sampleType := bits, flags := (1 : UInt64) <<< 18, readFormat := FORMAT_ID, sampleRegsUser := 5 })] }

def sampled : PerfRecordSample where
  sampleId := { id := 3 }
  ip := 1
  readFormats := [{ value := 8, id := 3 }]
  callchain := [1, 2]
  registerAbi := 2
  registers := [6, 7]
  userStack := [1, 2, 3, 4, 5, 6, 7, 8]

/-- A sample with a stack of which six bytes are in use. -/
theorem processEvents_sample_stack :
    let bits := SAMPLE_ID ||| SAMPLE_IP ||| SAMPLE_READ ||| SAMPLE_CALLCHAIN ||| SAMPLE_REGS_USER ||| SAMPLE_STACK_USER
    let attrs := (sampling bits).attributes.attributesOf 3
    ∃ flags : UInt64 → UInt64, ((plainEnv false).bigEndian = false → flags = id)
      ∧ ((create ⟨9, 0, 112⟩ attrs).read (plainEnv false).bigEndian).run
        (sampled.layout (plainEnv false).bigEndian attrs 6)
        = (sampled.decoded ⟨9, 0, 112⟩ attrs 6 flags, [])
      ∧ processEvents (plainEnv false) 0 true
          ⟨sampling bits, Layout.header (plainEnv false).bigEndian ⟨9, 0, 112⟩
            ++ (sampled.layout (plainEnv false).bigEndian attrs 6 ++ [])⟩
        = (.SignalFinished,
          ⟨clearEventSize (dispatch { sampling bits with eventHeader := ⟨9, 0, 112⟩ }
            (.sample (sampled.decoded ⟨9, 0, 112⟩ attrs 6 flags))), []⟩) := by
  intro bits attrs
  have hencodable : sampled.Encodable attrs 6 :=
    { formatId := fun _ => by decide
      single := fun _ _ => by decide
      registers := fun _ _ => by decide
      dynSize := fun _ => by decide }
  exact processEvents_sample (plainEnv false) 0 true (by decide) (by decide) (by decide) (by decide)
    (by decide) (by decide)
    (by decide) hencodable []

/-- A stack of no bytes with the `dyn_size` that the layout has behind it: the decoder, which does not take one there,
takes it for the weight, and does not come to the end. -/
theorem sample_emptyStack :
    let bits := SAMPLE_IDENTIFIER ||| SAMPLE_STACK_USER ||| SAMPLE_WEIGHT
    let s : PerfRecordSample := { sampleId := { id := 3 }, weight := 7 }
    let attrs := (sampling bits).attributes.attributesOf 3
    let result := ((create ⟨9, 0, 40⟩ attrs).read false).run (s.documentedLayout false attrs 0)
    8 + (s.documentedLayout false attrs 0).length = 40 ∧ result.1.weight = 0 ∧ result.2.length = 8
      ∧ (processEvents (plainEnv false) 0 true
          ⟨sampling bits, Layout.header false ⟨9, 0, 40⟩ ++ s.documentedLayout false attrs 0⟩).2.data.dispatched
        ≠ [.sample (s.decoded ⟨9, 0, 40⟩ attrs 0 id)] := by
  decide

end PerfData
end PerfParser
