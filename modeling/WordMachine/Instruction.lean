import WordMachine.Opcode
import WordMachine.Port

/-!
# Instructions

An instruction word is an opcode in its top four bits over a twelve-bit operand. Every word is an
instruction.
-/

namespace WordMachine

inductive SystemTarget
  | port (port : Port)
  | flags
  | programCounter
  deriving DecidableEq, Repr

/-- The select bit chooses the ports; below it, bit 0 tells the flags from the program counter. -/
def SystemTarget.ofOperand (operand : Word) : SystemTarget :=
  if selectsPort operand then port (Port.select operand.toNat)
  else if operand &&& 1 != 0 then flags
  else programCounter

structure Instruction where
  opcode : Opcode
  operand : Word
  deriving DecidableEq, Repr

namespace Instruction

def decode (word : Word) : Instruction := ⟨Opcode.ofCode (word.toNat / 4096), word &&& operandMask⟩

def encode (i : Instruction) : Word :=
  UInt16.ofNat (i.opcode.code * 4096) ||| (i.operand &&& operandMask)

theorem toNat_encode (i : Instruction) :
    i.encode.toNat = i.opcode.code * 4096 + i.operand.toNat % 4096 := by
  have hc := i.opcode.code_lt
  have hm : i.operand.toNat % 4096 < 2 ^ 12 := Nat.mod_lt _ (by decide)
  have hh : (UInt16.ofNat (i.opcode.code * 4096)).toNat = 2 ^ 12 * i.opcode.code := by
    simp only [UInt16.toNat_ofNat']
    omega
  rw [encode, UInt16.toNat_or, toNat_and_operandMask, hh, ← Nat.two_pow_add_eq_or_of_lt hm]
  omega

theorem encode_decode (word : Word) : (decode word).encode = word := by
  have hw := word.toNat_lt
  apply UInt16.toNat_inj.1
  simp only [toNat_encode, decode, Opcode.code_ofCode, toNat_and_operandMask]
  omega

theorem operand_decode_le (word : Word) : (decode word).operand ≤ operandMask := by
  have hmod : (decode word).operand.toNat ≤ 4095 := by
    rw [decode, toNat_and_operandMask]
    omega
  exact hmod

def honorsIndirect (i : Instruction) : Bool := i.opcode.operandClass = .memoryReference

def systemTarget (i : Instruction) : SystemTarget := SystemTarget.ofOperand i.operand

end Instruction

end WordMachine
