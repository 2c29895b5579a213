import WordMachine.Machine.Cycle
import WordMachine.Proofs.Word.Numeric

/-!
# The machine in numbers

A second account of the cycle, over natural numbers and in one phase: an instruction answers the
next state at once, and nothing is pending. A failed transfer answers the state before the
instruction.
-/

namespace WordMachine.Numeric

/-- `cell a` is the content of address `a`, for `a` below `size`. -/
structure State where
  size : Nat
  cell : Nat → Nat
  pc : Nat
  acc : Nat
  flags : Nat
  switches : Nat
  leds : Nat
  received : Nat
  runState : RunState

structure Result (κ : Type) where
  outcome : StepOutcome
  state : State
  console : κ

namespace State

def load (s : State) (address : Nat) : Nat := s.cell (address % s.size)

def store (s : State) (address value : Nat) : State :=
  { s with cell := Function.update s.cell (address % s.size) value }

/-- Opcodes 0 to 7, 12 and 13 take their operand through a pointer where the indirect flag is
set. -/
def isIndirect (s : State) (opcode : Nat) : Bool :=
  (opcode < 8 || opcode = 12 || opcode = 13) && bit 6 s.flags = 1

def effective (s : State) (opcode operand : Nat) : Nat :=
  if s.isIndirect opcode then s.load operand else operand

variable {κ : Type} [Console κ]

def readPort (s : State) (port : Nat) (console : κ) : Nat × κ :=
  match port with
  | 0 => (s.switches, console)
  | 1 =>
    let (ready, console) := Console.inputReady console
    ((if ready then 0 else 256) + s.received % 256, console)
  | _ => (0, console)

def fail (s : State) (cause : Fault) (console : κ) : Result κ :=
  ⟨.fault cause, { s with runState := .faulted cause }, console⟩

/-- `next` is the state after the instruction where no byte is received. -/
def receive (s next : State) (console : κ) : Result κ :=
  if bit 10 s.acc = 1 then
    match Console.readByte console with
    | (.ok (some byte), console) => ⟨.continuing, { next with received := byte.toNat }, console⟩
    | (.ok none, console) =>
      ⟨.continuing, { next with received := 65535, flags := putBit 7 1 next.flags }, console⟩
    | (.error _, console) => s.fail .consoleRead console
  else ⟨.continuing, next, console⟩

def writePort (s next : State) (port : Nat) (console : κ) : Result κ :=
  match port with
  | 0 => ⟨.continuing, { next with leds := s.acc }, console⟩
  | 1 =>
    if bit 13 s.acc = 1 then
      match Console.writeByte console (UInt8.ofNat (s.acc % 256)) with
      | (.ok (), console) => s.receive next console
      | (.error _, console) => s.fail .consoleWrite console
    else s.receive next console
  | _ => ⟨.continuing, next, console⟩

/-- For opcodes 8, 9, 14 and 15 bit 11 of the operand selects a port. -/
def execute (s : State) (opcode operand : Nat) (console : κ) : Result κ :=
  let lop := s.effective opcode operand
  let next := { s with pc := (s.pc + 1) % s.size, runState := .running }
  let retire (s : State) : Result κ := ⟨.continuing, s, console⟩
  match opcode with
  | 0 => retire { next with acc := s.acc ||| lop }
  | 1 => retire { next with acc := s.acc &&& andMask lop (s.isIndirect opcode) }
  | 2 => retire { next with acc := s.acc ^^^ lop }
  | 3 =>
    let sum := s.acc + lop + bit 0 s.flags
    retire { next with acc := sum % 65536, flags := putBit 0 (sum / 65536) s.flags }
  | 4 =>
    retire { next with
      acc := if bit 4 s.flags = 1 then rotateLeft s.acc (ones lop) else shiftLeft s.acc (ones lop) }
  | 5 =>
    retire { next with
      acc :=
        if bit 4 s.flags = 1 then rotateRight s.acc (ones lop) else shiftRight s.acc (ones lop) }
  | 6 => retire { next with acc := s.load lop }
  | 7 => retire (next.store lop s.acc)
  | 8 =>
    if bit 11 operand = 1 then
      let (value, console) := s.readPort (operand % 8) console
      ⟨.continuing, { next with acc := value }, console⟩
    else retire { next with acc := s.load operand }
  | 9 =>
    if bit 11 operand = 1 then s.writePort next (operand % 8) console
    else retire (next.store operand s.acc)
  | 10 => retire { next with acc := operand }
  | 12 => retire { next with pc := lop % s.size }
  | 13 => retire (if s.acc = 0 then { next with pc := lop % s.size } else next)
  | 14 =>
    if bit 11 operand = 1 then s.writePort next (operand % 8) console
    else if bit 0 operand = 1 then retire { next with flags := s.acc }
    else retire { next with pc := s.acc % s.size }
  | 15 =>
    if bit 11 operand = 1 then
      let (value, console) := s.readPort (operand % 8) console
      ⟨.continuing, { next with acc := value }, console⟩
    else retire { next with acc := if bit 0 operand = 1 then s.flags else s.pc }
  | _ => retire next

def step (s : State) (console : κ) : Result κ :=
  match s.runState with
  | .faulted cause => ⟨.fault cause, s, console⟩
  | _ =>
    let word := s.load s.pc
    let s := { s with flags := status s.flags s.acc }
    if bit 7 s.flags = 1 then ⟨.halted, { s with runState := .halted }, console⟩
    else if bit 5 s.flags = 1 then
      ⟨.continuing, { s with pc := 0, acc := 0, flags := 0, runState := .running }, console⟩
    else s.execute (word / 4096) (word % 4096) console

end State

end WordMachine.Numeric

namespace WordMachine.Machine

def numeric (m : Machine) : Numeric.State where
  size := m.memory.size.words
  cell a := (m.memory.cells[a]?.getD 0).toNat
  pc := m.registers.pc.toNat
  acc := m.registers.acc.toNat
  flags := m.registers.flags.toNat
  switches := m.ports.switches.toNat
  leds := m.ports.leds.toNat
  received := m.ports.received.toNat
  runState := m.runState

theorem numeric_injective : Function.Injective numeric := by
  rintro ⟨⟨pc, acc, flags⟩, ⟨⟨words, _, _, _⟩, cells, hcells⟩, ⟨switches, leds, received⟩, rs⟩
    ⟨⟨pc', acc', flags'⟩, ⟨⟨words', _, _, _⟩, cells', hcells'⟩, ⟨switches', leds', received'⟩,
      rs'⟩ h
  simp only [numeric, Numeric.State.mk.injEq, UInt16.toNat_inj] at h
  obtain ⟨rfl, hcell, rfl, rfl, rfl, rfl, rfl, rfl, rfl⟩ := h
  have hc : cells = cells' := by
    apply Array.ext (hcells.trans hcells'.symm)
    intro a ha ha'
    have := UInt16.toNat_inj.1 (congrFun hcell a)
    simpa [ha, ha'] using this
  subst hc
  rfl

end WordMachine.Machine
