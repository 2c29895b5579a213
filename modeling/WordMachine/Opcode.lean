import WordMachine.Word

/-!
# Opcodes

Sixteen opcodes in the order of their codes, each with its mnemonic and the class of its operand.
-/

namespace WordMachine

inductive OperandClass
  | memoryReference
  | portOrMemory
  | immediate
  | system
  deriving DecidableEq, Repr

def OperandClass.name : OperandClass → String
  | memoryReference => "memory_reference"
  | portOrMemory => "port_or_memory"
  | immediate => "immediate"
  | system => "system"

inductive Opcode
  | or
  | and
  | xor
  | add
  | lshift
  | rshift
  | load
  | store
  | loadDirect
  | storeDirect
  | literal
  | reserved
  | jump
  | jumpz
  | set
  | get
  deriving DecidableEq, Repr

namespace Opcode

/-- Every opcode; its place in the list is its code. -/
def all : List Opcode :=
  [or, and, xor, add, lshift, rshift, load, store, loadDirect, storeDirect, literal, reserved,
    jump, jumpz, set, get]

def code : Opcode → Nat
  | or => 0
  | and => 1
  | xor => 2
  | add => 3
  | lshift => 4
  | rshift => 5
  | load => 6
  | store => 7
  | loadDirect => 8
  | storeDirect => 9
  | literal => 10
  | reserved => 11
  | jump => 12
  | jumpz => 13
  | set => 14
  | get => 15

def ofCode (n : Nat) : Opcode :=
  match n % 16 with
  | 0 => or
  | 1 => and
  | 2 => xor
  | 3 => add
  | 4 => lshift
  | 5 => rshift
  | 6 => load
  | 7 => store
  | 8 => loadDirect
  | 9 => storeDirect
  | 10 => literal
  | 11 => reserved
  | 12 => jump
  | 13 => jumpz
  | 14 => set
  | _ => get

theorem ofCode_code (op : Opcode) : ofCode op.code = op := by cases op <;> rfl

theorem code_lt (op : Opcode) : op.code < 16 := by cases op <;> decide

theorem code_ofCode (n : Nat) : (ofCode n).code = n % 16 := by
  have all : ∀ k : Fin 16, (ofCode k.val).code = k.val := by decide
  have same : ofCode n = ofCode (n % 16) := by simp [ofCode]
  rw [same]
  exact all ⟨n % 16, Nat.mod_lt _ (by decide)⟩

def mnemonic : Opcode → String
  | or => "or"
  | and => "and"
  | xor => "xor"
  | add => "add"
  | lshift => "lshift"
  | rshift => "rshift"
  | load => "load"
  | store => "store"
  | loadDirect => "load-direct"
  | storeDirect => "store-direct"
  | literal => "literal"
  | reserved => "reserved"
  | jump => "jump"
  | jumpz => "jumpz"
  | set => "set"
  | get => "get"

def ofMnemonic? (name : String) : Option Opcode := all.find? (·.mnemonic = name)

theorem ofMnemonic?_mnemonic (op : Opcode) : ofMnemonic? op.mnemonic = some op := by
  cases op <;> decide

def operandClass : Opcode → OperandClass
  | or | and | xor | add | lshift | rshift | load | store | jump | jumpz => .memoryReference
  | loadDirect | storeDirect => .portOrMemory
  | literal | reserved => .immediate
  | set | get => .system

end Opcode

end WordMachine
