import PerfParser.Decode
import PerfParser.Lib.Bits
import PerfParser.Lib.Rank
/-!
# Registers — the registers of a sample (`perfregisterinfo.cpp`, `PerfRecordSample::registerValue`)

A sample has the values of the registers in its mask, in order, and `registerValue` takes the value at the rank of a
register.  That the register is in the mask is only asserted, so with a reduced mask the registers that unwinding asks
for may get the values of others (`registerValue_recorded_iff`).
-/
namespace PerfParser

namespace PerfRegisterInfo

inductive Architecture
  | ARCH_ARM
  | ARCH_AARCH64
  | ARCH_POWERPC
  | ARCH_S390
  | ARCH_SH
  | ARCH_SPARC
  | ARCH_X86
  | ARCH_MIPS
deriving DecidableEq, Repr, Inhabited

/-- An index of the tables, one less than the ABI of a sample. -/
abbrev Abi := Fin 2

/-- `s_numRegisters`; the table has no row for MIPS. -/
def numRegisters : Architecture → Abi → Nat
  | .ARCH_ARM, _ => 16
  | .ARCH_AARCH64, _ => 33
  | .ARCH_X86, 0 => 9
  | .ARCH_X86, 1 => 17
  | _, _ => 0

/-- `s_wordWidth`; the table has no row for MIPS. -/
def wordWidth : Architecture → Abi → Nat
  | .ARCH_ARM, _ => 4
  | .ARCH_AARCH64, _ => 8
  | .ARCH_X86, 0 => 4
  | .ARCH_X86, 1 => 8
  | _, _ => 0

/-- `s_perfToDwarf`: the perf register for each dwarf register. -/
def perfToDwarf : Architecture → Abi → List Nat
  | .ARCH_ARM, _ => List.range 16
  | .ARCH_AARCH64, _ => List.range 33
  | .ARCH_X86, 0 => [0, 2, 3, 1, 7, 6, 4, 5, 8]
  | .ARCH_X86, 1 => [0, 3, 2, 1, 4, 5, 6, 7, 16, 17, 18, 19, 20, 21, 22, 23, 8]
  | .ARCH_MIPS, _ => 32 :: List.range' 1 25 ++ [28, 29, 30, 31]
  | _, _ => [0]

/-- `s_perfSp`; the table has no row for MIPS. -/
def perfSp : Architecture → Nat
  | .ARCH_ARM => 13
  | .ARCH_AARCH64 => 31
  | .ARCH_X86 => 7
  | .ARCH_MIPS => 0
  | _ => 0xffff

/-- `s_dwarfLr`; the table has no row for MIPS. -/
def dwarfLr : Architecture → Abi → Nat
  | .ARCH_ARM, _ => 14
  | .ARCH_AARCH64, _ => 30
  | .ARCH_MIPS, _ => 0
  | _, _ => 0xffff

/-- `s_dwarfIp`; the table has no row for MIPS. -/
def dwarfIp : Architecture → Abi → Nat
  | .ARCH_ARM, _ => 15
  | .ARCH_AARCH64, _ => 32
  | .ARCH_X86, 0 => 8
  | .ARCH_X86, 1 => 16
  | .ARCH_MIPS, _ => 0
  | _, _ => 0xffff

/-- `s_dummyRegisters`: the registers that libdw expects and perf does not provide. -/
def dummyRegisters : Architecture → Nat × Nat
  | .ARCH_AARCH64 => (72, 80)
  | _ => (0, 0)

/-- The perf registers that `memoryRead` and `setInitialRegisters` ask for. -/
def requested (architecture : Architecture) (abi : Abi) : List Nat :=
  perfSp architecture :: (perfToDwarf architecture abi).take (numRegisters architecture abi)

end PerfRegisterInfo

open PerfRegisterInfo (Architecture Abi numRegisters perfToDwarf dwarfLr dwarfIp dummyRegisters requested)

namespace PerfRecordSample

/-- `index` after the loop of `registerValue`.  A shift by 64 or more is taken modulo 64, as the machine does. -/
def registerIndex (mask : UInt64) (reg : Nat) : Nat :=
  (List.range reg).countP (fun i => mask &&& (1 : UInt64) <<< UInt64.ofNat i != 0)

/-- The element of `m_registers` that `registerValue` returns, or none where it warns of an invalid register offset. -/
def readRegister (s : PerfRecordSample) (reg : Nat) : Option UInt64 := s.registers[registerIndex s.registerMask reg]?

def registerValue (s : PerfRecordSample) (reg : Nat) : UInt64 := (s.readRegister reg).getD 0xFFFFFFFFFFFFFFFF

/-- What `setInitialRegisters` gives to `dwfl_thread_state_registers`: the first register and the values of each call. -/
def setInitialRegisters (s : PerfRecordSample) (architecture : Architecture) (abi : Abi) (isInterworking : Bool) :
    List (Nat × List UInt64) :=
  let dwarfRegs := (List.range (numRegisters architecture abi)).map
    (fun i => s.registerValue ((perfToDwarf architecture abi).getD i 0))
  -- one frame up, to get the rest of the stack at interworking veneers
  let dwarfRegs := if isInterworking then
      dwarfRegs.set (dwarfIp architecture abi) (dwarfRegs.getD (dwarfLr architecture abi) 0)
    else dwarfRegs
  let dummy := dummyRegisters architecture
  if dummy.2 - dummy.1 > 0 then [(dummy.1, List.replicate (dummy.2 - dummy.1) 0), (0, dwarfRegs)] else [(0, dwarfRegs)]

/-- Whether a register is in the mask. -/
def hasRegister (s : PerfRecordSample) (reg : Nat) : Bool := s.registerMask.toNat.testBit reg

/-- The value that was recorded for a register: the values are those of the registers in the mask, in order. -/
def recordedValue (s : PerfRecordSample) (reg : Nat) : Option UInt64 :=
  (((List.range 64).filter s.hasRegister).zip s.registers).lookup reg

/-- `registerValue` returns the value that was recorded for the register, or, if none was, that of no register. -/
def ReturnsRecorded (s : PerfRecordSample) (reg : Nat) : Prop :=
  if s.hasRegister reg then s.recordedValue reg = some (s.registerValue reg) else s.readRegister reg = none

instance (s : PerfRecordSample) (reg : Nat) : Decidable (s.ReturnsRecorded reg) :=
  inferInstanceAs (Decidable (if s.hasRegister reg then s.recordedValue reg = some (s.registerValue reg)
    else s.readRegister reg = none))

theorem hasRegister_of_le (s : PerfRecordSample) {j : Nat} (hj : 64 ≤ j) : s.hasRegister j = false :=
  Nat.testBit_lt_two_pow (Nat.lt_of_lt_of_le s.registerMask.toNat_lt (Nat.pow_le_pow_right (by decide) hj))

theorem popCount_eq_rank (s : PerfRecordSample) : popCount s.registerMask = Rank.rank s.hasRegister 64 := rfl

/-- The loop counts the registers of the mask below, up to the last bit. -/
theorem registerIndex_eq_rank (s : PerfRecordSample) {reg : Nat} (h : reg ≤ 64) :
    registerIndex s.registerMask reg = Rank.rank s.hasRegister reg := by
  refine List.countP_congr (fun i hi => ?_)
  have hi' := List.mem_range.1 hi
  rw [Bits.and_one_shiftLeft_bne s.registerMask (by omega : i < 64)]
  exact Iff.rfl

theorem readRegister_eq_rank {s : PerfRecordSample} (hlen : s.registers.length = popCount s.registerMask) (reg : Nat) :
    s.readRegister reg = s.registers[Rank.rank s.hasRegister reg]? := by
  rw [readRegister]
  rcases Nat.le_total reg 64 with h | h
  · rw [registerIndex_eq_rank s h]
  · -- a register past the mask has all of the mask below it
    have hall : registerIndex s.registerMask 64 ≤ registerIndex s.registerMask reg := Rank.rank_mono _ h
    rw [registerIndex_eq_rank s (Nat.le_refl 64), ← popCount_eq_rank, ← hlen] at hall
    have hrank := Rank.rank_mono s.hasRegister h
    rw [← popCount_eq_rank, ← hlen] at hrank
    rw [List.getElem?_eq_none hall, List.getElem?_eq_none hrank]

theorem recordedValue_eq_rank (s : PerfRecordSample) {reg : Nat} (h : s.hasRegister reg = true) :
    s.recordedValue reg = s.registers[Rank.rank s.hasRegister reg]? := by
  refine Rank.lookup_zip_members s.hasRegister ?_ h s.registers
  by_contra hreg
  rw [s.hasRegister_of_le (Nat.not_lt.1 hreg)] at h
  cases h

/-- **A register gets the value recorded for it, or that of none, exactly if it is in the mask or no register after it
is.** -/
theorem registerValue_recorded_iff (s : PerfRecordSample) (architecture : Architecture) (abi : Abi)
    (hlen : s.registers.length = popCount s.registerMask) : ∀ reg ∈ requested architecture abi,
      (s.ReturnsRecorded reg ↔ s.hasRegister reg = true ∨ ∀ j, reg < j → s.hasRegister j = false) := by
  intro reg _
  have hread := readRegister_eq_rank hlen reg
  unfold ReturnsRecorded
  cases h : s.hasRegister reg with
  | true =>
    have hreg : reg < 64 := by
      by_contra hreg
      rw [s.hasRegister_of_le (Nat.not_lt.1 hreg)] at h
      cases h
    have hlt : Rank.rank s.hasRegister reg < s.registers.length := by
      rw [hlen, popCount_eq_rank]
      exact Rank.rank_lt s.hasRegister hreg h
    rw [if_pos rfl, recordedValue_eq_rank s h, registerValue, hread, List.getElem?_eq_getElem hlt, Option.getD_some]
    exact iff_of_true rfl (.inl rfl)
  | false =>
    rw [if_neg Bool.false_ne_true, hread, List.getElem?_eq_none_iff, hlen, popCount_eq_rank]
    simp only [Bool.false_eq_true, false_or]
    exact Rank.rank_le_iff_of_not_mem s.hasRegister h (fun j hj => s.hasRegister_of_le hj)

/-- The stack pointer and the instruction pointer of x86, and nothing else. -/
def reducedSample : PerfRecordSample := { registerMask := 0x180, registerAbi := 2, registers := [0x7ffc0000, 0x401000] }

theorem registerValue_recorded_sp : reducedSample.ReturnsRecorded 7 :=
  (registerValue_recorded_iff reducedSample .ARCH_X86 1 (by decide) 7 (by decide)).2 (.inl (by decide))

/-- **A register that was not recorded gets the value of another**: `ax` that of the stack pointer. -/
theorem not_registerValue_recorded : ¬∀ (s : PerfRecordSample) (architecture : Architecture) (abi : Abi),
    s.registers.length = popCount s.registerMask → ∀ reg ∈ requested architecture abi, s.ReturnsRecorded reg := by
  intro h
  have := h reducedSample .ARCH_X86 1 (by decide) 0 (by decide)
  revert this
  decide

end PerfRecordSample

end PerfParser
