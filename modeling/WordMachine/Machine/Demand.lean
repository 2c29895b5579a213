import WordMachine.Machine.Cycle

/-!
# What the next cycle asks of the console

A host that talks to a person has to fetch a byte before the cycle that wants it, and only then.
-/

namespace WordMachine

structure Demand where
  transmit : Option UInt8 := none
  receive : Bool := false
  deriving DecidableEq, Repr

namespace Demand

def ofWord (value : Word) : Demand where
  transmit := if PortBank.requestsTransmit value then some value.lowByte else none
  receive := PortBank.requestsReceive value

end Demand

namespace Instruction

def writtenPort? (i : Instruction) (size : MemorySize) : Option Port :=
  match i.opcode with
  | .storeDirect =>
    match Address.translate i.operand size with
    | .port port => some port
    | .memory _ => none
  | .set =>
    match i.systemTarget with
    | .port port => some port
    | _ => none
  | _ => none

end Instruction

namespace Machine

def executes (m : Machine) : Bool :=
  match m.runState with
  | .faulted _ => false
  | _ => !Flag.halt.isSet m.registers.flags && !Flag.reset.isSet m.registers.flags

def demand (m : Machine) : Demand :=
  let i := Instruction.decode (m.memory.read m.registers.pc)
  if m.executes && i.writtenPort? m.memory.size = some .console then Demand.ofWord m.registers.acc
  else {}

end Machine

end WordMachine
