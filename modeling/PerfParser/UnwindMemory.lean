import PerfParser.Registers
import PerfParser.SymbolTables
/-!
# UnwindMemory — the memory that unwinding reads (`memoryRead`, `accessDsoMem`)

libdwfl asks for words of the memory of the process.  They are copied from the stack snapshot of the sample or from the
data of an ELF section; what is in neither is answered with a value an earlier sample had on its stack.  What is copied
from the stack is inside of it, though the last words of it are not answered from it if they are narrower than eight
bytes; what is copied from a section is not checked against its end.
-/
namespace PerfParser

open PerfRegisterInfo (Architecture Abi perfSp)

inductive CopySource
  | userStack
  | elfData
deriving DecidableEq, Repr, Inhabited

/-- A call of `doMemcpy`: `count` bytes at an offset from the start of a buffer. -/
structure Copy where
  origin : CopySource
  source : QByteArray
  offset : Nat
  count : Nat
deriving DecidableEq, Repr, Inhabited

/-- All bytes are bytes of the buffer. -/
def Copy.Inside (c : Copy) : Prop := c.offset + c.count ≤ c.source.length

instance (c : Copy) : Decidable c.Inside := inferInstanceAs (Decidable (_ ≤ _))

/-- The word after the call, which was zero before it, on a machine with the lowest byte first.  What is behind the
buffer is taken as zeros. -/
def Copy.word (c : Copy) : UInt64 := UInt64.ofNat (Reader.ofBytes ((c.source.drop c.offset).take c.count))

/-- The part of `UnwindInfo` and of the symbol tables that `memoryRead` changes. -/
structure UnwindMemory where
  tables : SymbolTables
  info : UnwindInfo
  stackValues : QHash Int32 (QHash UInt64 UInt64)

/-- What a call of `memoryRead` returns, the word if it returns true, and what it copied. -/
structure MemoryRead where
  result : Option UInt64
  copies : List Copy
  memory : UnwindMemory

namespace UnwindMemory

/-- The frames from here on are guessed. -/
def guess (m : UnwindMemory) : UnwindMemory :=
  { m with info := { m.info with firstGuessedFrame := m.info.frames.length } }

end UnwindMemory

section

/- `addressSection` is what `dwfl_module_address_section` and `elf_getdata` tell of an address in a module: the address
in its section, and the data of that. -/
variable (H : Host) (addressSection : Module → UInt64 → Option (UInt64 × Option QByteArray))

/-- The module of an address, which may be reported to libdwfl for it. -/
def SymbolTables.moduleAt (s : SymbolTables) (pid : Int32) (addr : UInt64) : Option Module × SymbolTables :=
  let s := s.symbolTable pid
  let t := s.table pid
  let (mod, t) := t.module H addr (t.elfs.findElf addr)
  (mod, s.set pid t)

/-- The ELF data that an address is in, and where it is in it. -/
def SymbolTables.elfData (s : SymbolTables) (pid : Int32) (addr : UInt64) : Option (UInt64 × QByteArray) := do
  let mod ← (s.moduleAt H pid addr).1
  let (addr, data) ← addressSection mod addr
  let d_buf ← data
  pure (addr, d_buf)

/-- `accessDsoMem`: what is copied, and the tables with the module. -/
def accessDsoMem (s : SymbolTables) (pid : Int32) (addr : UInt64) (wordWidth : Nat) : Option Copy × SymbolTables :=
  ((s.elfData H addressSection pid addr).bind (fun (addr, d_buf) =>
      if d_buf.length > addr.toNat then
        some { origin := .elfData, source := d_buf, offset := addr.toNat, count := wordWidth }
      else none),
    (s.moduleAt H pid addr).2)

/-- What an earlier sample had at an address of its stack; `stackValues[pid]` is there afterwards. -/
def UnwindMemory.stackValue (m : UnwindMemory) (pid : Int32) (addr : UInt64) : Option UInt64 × UnwindMemory :=
  let stackValues := (m.stackValues.find pid).getD []
  (stackValues.find addr, { m with stackValues := m.stackValues.insert pid stackValues })

/-- The part of `memoryRead` for what is not on the stack: try reading from ELF. -/
def readOutside (architecture : Architecture) (abi : Abi) (pid : Int32) (m : UnwindMemory) (addr : UInt64) :
    MemoryRead :=
  if m.tables.ipIsInKernelSpace addr then { result := none, copies := [], memory := m }
  else
    let (copy, tables) := accessDsoMem H addressSection m.tables pid addr (PerfRegisterInfo.wordWidth architecture abi)
    let m := { m with tables := tables }
    match copy with
    | some copy => { result := some copy.word, copies := [copy], memory := m }
    | none =>
      let (value, m) := m.guess.stackValue pid addr
      { result := value, copies := [], memory := m }

/-- `memoryRead` for a sample with registers of an ABI. -/
def memoryRead (architecture : Architecture) (abi : Abi) (sample : PerfRecordSample) (m : UnwindMemory)
    (addr : UInt64) : MemoryRead :=
  -- check overflow
  if addr + 8 < addr then { result := none, copies := [], memory := m.guess }
  else
    let start := sample.registerValue (perfSp architecture)
    let stop := start + UInt64.ofNat sample.userStack.length
    if addr < start ∨ addr + 8 > stop then readOutside H addressSection architecture abi sample.pid m addr
    else
      let copy : Copy :=
        { origin := .userStack, source := sample.userStack, offset := (addr - start).toNat,
          count := PerfRegisterInfo.wordWidth architecture abi }
      let stackValues := ((m.stackValues.find sample.pid).getD []).insert addr copy.word
      { result := some copy.word, copies := [copy],
        memory := { m with stackValues := m.stackValues.insert sample.pid stackValues } }

/-! ## What is copied -/

/-- The eight bytes at an address are in the snapshot, as `memoryRead` checks it. -/
def OnStack (sample : PerfRecordSample) (architecture : Architecture) (addr : UInt64) : Prop :=
  sample.registerValue (perfSp architecture) ≤ addr ∧
    addr + 8 ≤ sample.registerValue (perfSp architecture) + UInt64.ofNat sample.userStack.length

instance (sample : PerfRecordSample) (architecture : Architecture) (addr : UInt64) :
    Decidable (OnStack sample architecture addr) := inferInstanceAs (Decidable (_ ∧ _))

variable {H addressSection} {architecture : Architecture} {abi : Abi} {sample : PerfRecordSample} {m : UnwindMemory}
  {addr : UInt64}

theorem wordWidth_le (architecture : Architecture) (abi : Abi) : PerfRegisterInfo.wordWidth architecture abi ≤ 8 := by
  revert abi
  cases architecture <;> decide

theorem not_overflow_iff : ¬ addr + 8 < addr ↔ addr.toNat + 8 < 2 ^ 64 := by
  have hlt := addr.toNat_lt
  rw [UInt64.lt_iff_toNat_lt, UInt64.toNat_add, show (8 : UInt64).toNat = 8 from rfl]
  omega

theorem memoryRead_of_overflow (h : addr + 8 < addr) : (memoryRead H addressSection architecture abi sample m addr) =
    { result := none, copies := [], memory := m.guess } := if_pos h

theorem memoryRead_of_onStack (H : Host) (addressSection : Module → UInt64 → Option (UInt64 × Option QByteArray))
    (abi : Abi) (m : UnwindMemory) (h : ¬ addr + 8 < addr) (hstack : OnStack sample architecture addr) :
    (memoryRead H addressSection architecture abi sample m addr).copies =
        [{ origin := .userStack, source := sample.userStack,
           offset := (addr - sample.registerValue (perfSp architecture)).toNat,
           count := PerfRegisterInfo.wordWidth architecture abi }] ∧
      (memoryRead H addressSection architecture abi sample m addr).result =
        (memoryRead H addressSection architecture abi sample m addr).copies.head?.map Copy.word := by
  have hin : ¬ (addr < sample.registerValue (perfSp architecture) ∨
      addr + 8 > sample.registerValue (perfSp architecture) + UInt64.ofNat sample.userStack.length) := by
    rw [not_or]
    exact ⟨UInt64.not_lt.2 hstack.1, UInt64.not_lt.2 hstack.2⟩
  unfold memoryRead
  rw [if_neg h]
  simp only [if_neg hin]
  exact ⟨trivial, rfl⟩

theorem memoryRead_of_not_onStack (h : ¬ addr + 8 < addr) (hstack : ¬ OnStack sample architecture addr) :
    memoryRead H addressSection architecture abi sample m addr =
      readOutside H addressSection architecture abi sample.pid m addr := by
  have hout : addr < sample.registerValue (perfSp architecture) ∨
      addr + 8 > sample.registerValue (perfSp architecture) + UInt64.ofNat sample.userStack.length := by
    by_contra hin
    rw [not_or] at hin
    exact hstack ⟨UInt64.not_lt.1 hin.1, UInt64.not_lt.1 hin.2⟩
  unfold memoryRead
  rw [if_neg h]
  simp only [if_pos hout]

/-- **What is checked against the stack is inside of it**, wherever the stack is said to be. -/
theorem onStack_inside (h : ¬ addr + 8 < addr) (hstack : OnStack sample architecture addr) :
    (addr - sample.registerValue (perfSp architecture)).toNat + 8 ≤ sample.userStack.length := by
  obtain ⟨hstart, hstop⟩ := hstack
  generalize sample.registerValue (perfSp architecture) = start at hstart hstop ⊢
  have h8 := not_overflow_iff.1 h
  rw [UInt64.toNat_sub_of_le _ _ hstart]
  rw [UInt64.le_iff_toNat_le] at hstart hstop
  rw [UInt64.toNat_add, UInt64.toNat_add, UInt64.toNat_ofNat', show (8 : UInt64).toNat = 8 from rfl,
    Nat.mod_eq_of_lt h8] at hstop
  -- an end that wraps around is before the start
  have hlen : sample.userStack.length % 2 ^ 64 ≤ sample.userStack.length := Nat.mod_le _ _
  omega

theorem readOutside_copies : (readOutside H addressSection architecture abi sample.pid m addr).copies =
    if m.tables.ipIsInKernelSpace addr then []
    else (accessDsoMem H addressSection m.tables sample.pid addr
      (PerfRegisterInfo.wordWidth architecture abi)).1.toList := by
  unfold readOutside
  split
  · rfl
  · cases haccess : accessDsoMem H addressSection m.tables sample.pid addr
      (PerfRegisterInfo.wordWidth architecture abi) with
    | mk copy tables => cases copy <;> rfl

theorem mem_accessDsoMem {s : SymbolTables} {pid : Int32} {wordWidth : Nat} {c : Copy} :
    c ∈ (accessDsoMem H addressSection s pid addr wordWidth).1.toList ↔
      ∃ rel data, s.elfData H addressSection pid addr = some (rel, data) ∧ rel.toNat < data.length ∧
        c = { origin := .elfData, source := data, offset := rel.toNat, count := wordWidth } := by
  rw [Option.mem_toList, accessDsoMem]
  simp only [Option.bind_eq_some_iff, Prod.exists]
  refine exists_congr fun rel => exists_congr fun data => and_congr_right fun _ => ?_
  constructor
  · intro hc
    split at hc
    · rename_i hlt
      exact ⟨hlt, (Option.some.inj hc).symm⟩
    · cases hc
  · rintro ⟨hlt, rfl⟩
    exact if_pos hlt

/-- **All that is copied is in its buffer exactly if the word is in the section data**, wherever `memoryRead` gets to
read from that. -/
theorem memoryRead_inside_iff (H : Host) (addressSection : Module → UInt64 → Option (UInt64 × Option QByteArray))
    (architecture : Architecture) (abi : Abi) (sample : PerfRecordSample) (m : UnwindMemory) (addr : UInt64) :
    (∀ c ∈ (memoryRead H addressSection architecture abi sample m addr).copies, c.Inside) ↔
      (¬ addr + 8 < addr → ¬ OnStack sample architecture addr → m.tables.ipIsInKernelSpace addr = false →
        ∀ rel data, m.tables.elfData H addressSection sample.pid addr = some (rel, data) →
          rel.toNat < data.length → rel.toNat + PerfRegisterInfo.wordWidth architecture abi ≤ data.length) := by
  by_cases hover : addr + 8 < addr
  · rw [memoryRead_of_overflow hover]
    exact iff_of_true (fun c hc => by cases hc) (fun h => absurd hover h)
  · by_cases hstack : OnStack sample architecture addr
    · refine iff_of_true (fun c hc => ?_) (fun _ h => absurd hstack h)
      rw [(memoryRead_of_onStack H addressSection abi m hover hstack).1] at hc
      rw [List.mem_singleton.1 hc]
      exact Nat.le_trans (Nat.add_le_add_left (wordWidth_le architecture abi) _) (onStack_inside hover hstack)
    · rw [memoryRead_of_not_onStack hover hstack, readOutside_copies]
      cases hkernel : m.tables.ipIsInKernelSpace addr with
      | true => exact iff_of_true (fun c hc => by cases hc) (fun _ _ h => by cases h)
      | false =>
        simp only [Bool.false_eq_true, if_false, mem_accessDsoMem, hover, hstack, not_false_eq_true, forall_true_left]
        constructor
        · exact fun h rel data hdata hlt => h _ ⟨rel, data, hdata, hlt, rfl⟩
        · rintro h c ⟨rel, data, hdata, hlt, rfl⟩
          exact h rel data hdata hlt

end

/-- A library, and the eight bytes of a section of it. -/
def smallSection : Host := { PerfUnwind.noFiles with addrModule := fun _ _ => some ⟨[], [], 0, 0x10000⟩ }

/-- **A word at the end of a section goes on past it**: of eight bytes, the last four are read as a word of eight. -/
theorem not_memoryRead_inside : ¬∀ (H : Host) (addressSection : Module → UInt64 → Option (UInt64 × Option QByteArray))
    (architecture : Architecture) (abi : Abi) (sample : PerfRecordSample) (m : UnwindMemory) (addr : UInt64),
    ∀ c ∈ (memoryRead H addressSection architecture abi sample m addr).copies, c.Inside := by
  intro h
  have hcopy := h smallSection (fun _ addr => some (addr - 0x1000, some [1, 2, 3, 4, 5, 6, 7, 8])) .ARCH_X86 1
    { registerMask := 0x80, registers := [0x7ffc0000] } { tables := {}, info := {}, stackValues := [] } 0x1004
    { origin := .elfData, source := [1, 2, 3, 4, 5, 6, 7, 8], offset := 4, count := 8 } (by decide)
  revert hcopy
  decide

/-! ## What is on the stack -/

section

variable (H : Host) (addressSection : Module → UInt64 → Option (UInt64 × Option QByteArray)) (architecture : Architecture)
  (abi : Abi) (sample : PerfRecordSample) (m : UnwindMemory) (addr : UInt64)

/-- `memoryRead` returns the word of the snapshot at the address, and has copied it from there. -/
def ReadsStack : Prop :=
  let offset := (addr - sample.registerValue (perfSp architecture)).toNat
  let width := PerfRegisterInfo.wordWidth architecture abi
  let read := memoryRead H addressSection architecture abi sample m addr
  read.copies = [{ origin := .userStack, source := sample.userStack, offset := offset, count := width }] ∧
    read.result = some (UInt64.ofNat (Reader.ofBytes ((sample.userStack.drop offset).take width)))

theorem onStack_iff (hfits : (sample.registerValue (perfSp architecture)).toNat + sample.userStack.length < 2 ^ 64)
    (hover : ¬ addr + 8 < addr) : OnStack sample architecture addr ↔
      sample.registerValue (perfSp architecture) ≤ addr ∧
        addr.toNat + 8 ≤ (sample.registerValue (perfSp architecture)).toNat + sample.userStack.length := by
  unfold OnStack
  generalize sample.registerValue (perfSp architecture) = start at hfits ⊢
  refine and_congr_right fun _ => ?_
  rw [UInt64.le_iff_toNat_le, UInt64.toNat_add, UInt64.toNat_add, UInt64.toNat_ofNat',
    show (8 : UInt64).toNat = 8 from rfl, Nat.mod_eq_of_lt (not_overflow_iff.1 hover),
    Nat.mod_eq_of_lt (show sample.userStack.length < 2 ^ 64 by omega), Nat.mod_eq_of_lt hfits]

/-- **A word of the snapshot is read from it exactly if eight bytes are left there**, however wide it is. -/
theorem memoryRead_stack_iff
    (hfits : (sample.registerValue (perfSp architecture)).toNat + sample.userStack.length < 2 ^ 64)
    (hstart : sample.registerValue (perfSp architecture) ≤ addr) :
    ReadsStack H addressSection architecture abi sample m addr ↔
      addr.toNat + 8 ≤ (sample.registerValue (perfSp architecture)).toNat + sample.userStack.length := by
  constructor
  · rintro ⟨hcopies, -⟩
    have hover : ¬ addr + 8 < addr := fun h => by
      rw [memoryRead_of_overflow h] at hcopies
      cases hcopies
    by_contra hlast
    have hstack : ¬ OnStack sample architecture addr := fun h =>
      hlast ((onStack_iff architecture sample addr hfits hover).1 h).2
    rw [memoryRead_of_not_onStack hover hstack, readOutside_copies] at hcopies
    split at hcopies
    · cases hcopies
    · -- what is copied there is ELF data
      have hmem := List.mem_singleton_self ({
        origin := .userStack, source := sample.userStack,
        offset := (addr - sample.registerValue (perfSp architecture)).toNat,
        count := PerfRegisterInfo.wordWidth architecture abi } : Copy)
      rw [← hcopies, mem_accessDsoMem] at hmem
      obtain ⟨rel, data, -, -, hcopy⟩ := hmem
      cases congrArg Copy.origin hcopy
  · intro hlast
    have hover : ¬ addr + 8 < addr := not_overflow_iff.2 (by omega)
    have hstack := (onStack_iff architecture sample addr hfits hover).2 ⟨hstart, hlast⟩
    obtain ⟨hcopies, hresult⟩ := memoryRead_of_onStack H addressSection abi m hover hstack
    exact ⟨hcopies, by rw [hresult, hcopies]; rfl⟩

end

/-- A snapshot of eight bytes. -/
def shortSnapshot : PerfRecordSample :=
  { registerMask := 0x80, registerAbi := 1, registers := [0x1000], userStack := [1, 2, 3, 4, 5, 6, 7, 8] }

theorem memoryRead_stack_first : ReadsStack PerfUnwind.noFiles (fun _ _ => none) .ARCH_X86 0 shortSnapshot
    { tables := {}, info := {}, stackValues := [] } 0x1000 :=
  (memoryRead_stack_iff PerfUnwind.noFiles (fun _ _ => none) .ARCH_X86 0 shortSnapshot
    { tables := {}, info := {}, stackValues := [] } 0x1000 (by decide) (by decide)).2 (by decide)

/-- **The last word of a snapshot is not read from it** where words have four bytes. -/
theorem not_memoryRead_stack : ¬∀ (H : Host) (addressSection : Module → UInt64 → Option (UInt64 × Option QByteArray))
    (architecture : Architecture) (abi : Abi) (sample : PerfRecordSample) (m : UnwindMemory) (addr : UInt64),
    (sample.registerValue (perfSp architecture)).toNat + sample.userStack.length < 2 ^ 64 →
      sample.registerValue (perfSp architecture) ≤ addr →
        addr.toNat + PerfRegisterInfo.wordWidth architecture abi ≤
            (sample.registerValue (perfSp architecture)).toNat + sample.userStack.length →
          ReadsStack H addressSection architecture abi sample m addr := by
  intro h
  have hcopies := (h PerfUnwind.noFiles (fun _ _ => none) .ARCH_X86 0 shortSnapshot
    { tables := {}, info := {}, stackValues := [] } 0x1004 (by decide) (by decide) (by decide)).1
  revert hcopies
  decide

end PerfParser
