import WordMachine.Instruction
import WordMachine.Memory
import WordMachine.Text.Numeral

/-!
# Disassembly

A word is shown as a mnemonic and its operand in three digits. A `set` or `get` is shown by what it
selects, since the operand alone does not tell.
-/

namespace WordMachine

structure DisassemblyRow where
  address : Word
  word : Word
  mnemonic : String
  operand : String
  deriving DecidableEq, Repr

namespace DisassemblyRow

def ofWord (address word : Word) : DisassemblyRow :=
  let i := Instruction.decode word
  let name := i.opcode.mnemonic
  match i.opcode.operandClass with
  | .system =>
    match i.systemTarget with
    | .port port => ⟨address, word, name ++ ".port", toString port.index⟩
    | .flags => ⟨address, word, name ++ ".flags", ""⟩
    | .programCounter => ⟨address, word, name ++ ".pc", ""⟩
  | _ => ⟨address, word, name, "$" ++ Text.Hex.padded 3 i.operand.toNat⟩

def text (r : DisassemblyRow) : String :=
  if r.operand.isEmpty then r.mnemonic else r.mnemonic ++ " " ++ r.operand

end DisassemblyRow

def disassemble (word : Word) : String := (DisassemblyRow.ofWord 0 word).text

/-- The `count` cells from `start` on, going round at the end of memory. -/
def Memory.disassemble (m : Memory) : (start : Word) → (count : Nat) → List DisassemblyRow
  | _, 0 => []
  | start, count + 1 =>
    let address := m.size.wrap start
    DisassemblyRow.ofWord address (m.read address) :: m.disassemble (address + 1) count

end WordMachine
