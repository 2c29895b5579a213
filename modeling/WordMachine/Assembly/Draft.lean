import WordMachine.Assembly.Journal
import WordMachine.Assembly.Macro
import WordMachine.Memory

/-!
# Drafts

The state of an assembly between two lines. Code grows upwards from address 0 and data downwards
from the last cell; the cells between the two are free. Each operation leaves an entry in the
journal.
-/

namespace WordMachine.Assembly

/-- An operand that named a symbol before its definition. -/
structure Reference where
  name : String
  address : Nat
  location : Location
  deriving DecidableEq, Repr

/-- `used` is the next code address and `data` the next data cell; `extent` is the length of the
memory up to the last word written. -/
structure Draft where
  size : MemorySize
  cells : Array Word
  used : Nat := 0
  data : Nat
  extent : Nat := 0
  symbols : SymbolTable := {}
  macros : MacroTable := {}
  references : Array Reference := #[]
  journal : Journal := #[]

namespace Draft

def empty (size : MemorySize) : Draft where
  size := size
  cells := Array.replicate size.words 0
  data := size.words - 1

def isFull (d : Draft) : Bool := d.data ≤ d.used

def note (d : Draft) (e : Entry) : Draft := { d with journal := d.journal.push e }

def emit (d : Draft) (s : Statement) (w : Word) : Draft :=
  { d with
    cells := d.cells.setIfInBounds d.used w
    used := d.used + 1
    extent := max d.extent (d.used + 1)
    journal := d.journal.push (.emitted d.used w s) }

def store (d : Draft) (address : Nat) (w : Word) : Draft :=
  { d with
    cells := d.cells.setIfInBounds address w
    extent := max d.extent (address + 1)
    journal := d.journal.push (.stored address w) }

def reserve (d : Draft) (count : Nat) : Draft :=
  { d with
    data := d.data - count
    journal := d.journal.push (.reserved (d.data - count + 1) count) }

def refer (d : Draft) (name : String) (location : Location) : Draft :=
  { d with references := d.references.push ⟨name, d.used, location⟩ }

def define (d : Draft) (s : Symbol) : Draft :=
  { d with symbols := d.symbols.insert s, journal := d.journal.push (.defined s) }

def withMacros (d : Draft) (macros : MacroTable) : Draft := { d with macros }

end Draft

end WordMachine.Assembly
