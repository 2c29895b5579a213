import WordMachine.Instruction
import WordMachine.Machine

/-!
# Execution of one instruction

Executing an instruction changes ports and console only. What it does to registers and memory is
answered as pending effects, so a console failure leaves them as they were.
-/

namespace WordMachine

structure Pending where
  nextPc : Word := 0
  acc : Word := 0
  flags : Word := 0
  memoryWrite : Option (Word × Word) := none
  deriving DecidableEq, Repr

structure Execution (κ : Type) where
  fault : Option Fault
  pending : Pending
  ports : PortBank
  console : κ
  notices : List Notice

namespace Execution

variable {κ : Type} [Console κ]

def ofPortRead (ports : PortBank) (port : Port) (p : Pending) (console : κ) : Execution κ :=
  let (value, console) := ports.read port console
  ⟨none, { p with acc := value }, ports, console, [.event (.portRead port value)]⟩

/-- The effects of an instruction that writes to a port. The end of input raises the halt flag. -/
def ofPortWrite (ports : PortBank) (port : Port) (value : Word) (p : Pending) (console : κ) :
    Execution κ :=
  let t := ports.write port value console
  match t.answer with
  | .error fault => ⟨some fault, p, t.bank, t.console, t.remarks.map .remark⟩
  | .ok answer =>
    let p := if answer = .inputClosed then { p with flags := Flag.halt.put true p.flags } else p
    ⟨none, p, t.bank, t.console, t.remarks.map .remark ++ [.event (.portWrite port value)]⟩

end Execution

namespace Machine

def effectiveOperand (m : Machine) (i : Instruction) : Word :=
  if i.honorsIndirect && Flag.indirect.isSet m.registers.flags then m.memory.read i.operand
  else i.operand

/-- The status flags must be those of the accumulator, and the program counter still at the
instruction. -/
def execute {κ : Type} [Console κ] (m : Machine) (i : Instruction) (console : κ) : Execution κ :=
  let size := m.memory.size
  let acc := m.registers.acc
  let flags := m.registers.flags
  let operand := m.effectiveOperand i
  let rotate := Flag.rotate.isSet flags
  let next : Pending := ⟨size.wrap (m.registers.pc + 1), acc, flags, none⟩
  let retire (p : Pending) : Execution κ := ⟨none, p, m.ports, console, []⟩
  match i.opcode with
  | .or => retire { next with acc := acc ||| operand }
  | .and =>
    let indirect := i.honorsIndirect && Flag.indirect.isSet flags
    retire { next with acc := acc &&& Word.andMask operand indirect }
  | .xor => retire { next with acc := acc ^^^ operand }
  | .add =>
    let (sum, carry) := Word.addWithCarry acc operand (Flag.carry.isSet flags)
    retire { next with acc := sum, flags := Flag.carry.put carry flags }
  | .lshift => retire { next with acc := Word.shiftLeft acc (Word.shiftCount operand) rotate }
  | .rshift => retire { next with acc := Word.shiftRight acc (Word.shiftCount operand) rotate }
  | .load => retire { next with acc := m.memory.read operand }
  | .store => retire { next with memoryWrite := some (size.wrap operand, acc) }
  | .loadDirect =>
    match Address.translate i.operand size with
    | .memory address => retire { next with acc := m.memory.read address }
    | .port port => .ofPortRead m.ports port next console
  | .storeDirect =>
    match Address.translate i.operand size with
    | .memory address => retire { next with memoryWrite := some (address, acc) }
    | .port port => .ofPortWrite m.ports port acc next console
  | .literal => retire { next with acc := i.operand }
  | .reserved => retire next
  | .jump => retire { next with nextPc := size.wrap operand }
  | .jumpz => retire (if acc = 0 then { next with nextPc := size.wrap operand } else next)
  | .set =>
    match i.systemTarget with
    | .port port => .ofPortWrite m.ports port acc next console
    | .flags => retire { next with flags := acc }
    | .programCounter => retire { next with nextPc := size.wrap acc }
  | .get =>
    match i.systemTarget with
    | .port port => .ofPortRead m.ports port next console
    | .flags => retire { next with acc := flags }
    | .programCounter => retire { next with acc := m.registers.pc }

def commit (m : Machine) (p : Pending) : Machine :=
  let m := { m with registers := ⟨p.nextPc, p.acc, p.flags⟩ }
  match p.memoryWrite with
  | none => m
  | some (address, value) => m.poke address value

end Machine

end WordMachine
