import WordMachine.Memory

/-!
# Ports and addresses

Eight ports stand beside memory. The first holds the switches and the lights, the second the
console; three are reserved for control and three are unassigned. A twelve-bit operand of a direct
transfer names a memory cell or a port. Its top bit makes the choice: in the virtual address it
becomes bit 15, and the eleven bits below it stay.
-/

namespace WordMachine

inductive Port
  | switches
  | console
  | txControl
  | rxControl
  | uartControl
  | unassigned (n : Fin 3)
  deriving DecidableEq, Repr

namespace Port

def index : Port → Nat
  | switches => 0
  | console => 1
  | txControl => 2
  | rxControl => 3
  | uartControl => 4
  | unassigned n => 5 + n.val

def select (n : Nat) : Port :=
  match n % 8 with
  | 0 => switches
  | 1 => console
  | 2 => txControl
  | 3 => rxControl
  | 4 => uartControl
  | 5 => unassigned 0
  | 6 => unassigned 1
  | _ => unassigned 2

theorem select_index (p : Port) : select p.index = p := by
  rcases p with _ | _ | _ | _ | _ | ⟨n, hn⟩ <;> try rfl
  obtain rfl | rfl | rfl : n = 0 ∨ n = 1 ∨ n = 2 := by omega
  all_goals rfl

def name : Port → String
  | switches => "switches"
  | console => "console"
  | txControl => "tx_control"
  | rxControl => "rx_control"
  | uartControl => "uart_control"
  | unassigned _ => "unassigned"

end Port

def operandMask : Word := 0x0FFF

theorem toNat_and_operandMask (w : Word) : (w &&& operandMask).toNat = w.toNat % 4096 := by
  rw [UInt16.toNat_and]
  exact Nat.and_two_pow_sub_one_eq_mod w.toNat 12

def ioSelect : Word := 0x0800

def selectsPort (operand : Word) : Bool := operand &&& ioSelect != 0

inductive Address
  | memory (address : Word)
  | port (port : Port)
  deriving DecidableEq, Repr

namespace Address

def ioBit : Word := 0x8000

def virtual (operand : Word) : Word :=
  let low := operand &&& operandMask &&& ~~~ioSelect
  if selectsPort operand then low ||| ioBit else low

def translate (operand : Word) (size : MemorySize) : Address :=
  let v := virtual operand
  if v &&& ioBit = 0 then memory (size.wrap v) else port (Port.select v.toNat)

end Address

end WordMachine
