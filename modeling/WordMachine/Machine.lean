import WordMachine.Flag
import WordMachine.Memory
import WordMachine.Port.Bank

/-!
# The machine

A machine is its registers, its memory, its port bank and its run state.
-/

namespace WordMachine

structure Registers where
  pc : Word := 0
  acc : Word := 0
  flags : Word := 0
  deriving DecidableEq, Repr

namespace Registers

def allSet (r : Registers) (mask : Word) : Bool := r.flags &&& mask = mask

def writeFlags (r : Registers) (mask : Word) (on : Bool) : Registers :=
  { r with flags := Flag.write mask on r.flags }

end Registers

/-- A halted machine looks at its halt flag again when it is stepped; a fault stays until the
machine is reset. -/
inductive RunState
  | running
  | halted
  | faulted (cause : Fault)
  deriving DecidableEq, Repr

structure Machine where
  registers : Registers
  memory : Memory
  ports : PortBank
  runState : RunState
  deriving DecidableEq

namespace Machine

def size (m : Machine) : MemorySize := m.memory.size

def powerOn (size : MemorySize) (switches : Word) : Machine where
  registers := {}
  memory := Memory.zero size
  ports := { switches }
  runState := .running

def load (m : Machine) (words : Array Word) : Machine := { m with memory := m.memory.load words }

def clearMemory (m : Machine) : Machine := { m with memory := m.memory.clear }

def reset (m : Machine) : Machine :=
  { m with registers := {}, ports := { switches := m.ports.switches }, runState := .running }

def setPc (m : Machine) (pc : Word) : Machine :=
  { m with registers := { m.registers with pc := m.memory.size.wrap pc } }

def setAcc (m : Machine) (acc : Word) : Machine :=
  { m with registers := { m.registers with acc } }

def setFlags (m : Machine) (flags : Word) : Machine :=
  { m with registers := { m.registers with flags } }

def setSwitches (m : Machine) (switches : Word) : Machine :=
  { m with ports := { m.ports with switches } }

def peek (m : Machine) (address : Word) : Word := m.memory.read address

def poke (m : Machine) (address value : Word) : Machine :=
  { m with memory := m.memory.write address value }

def isHalted (m : Machine) : Bool := m.runState = .halted

end Machine

end WordMachine
