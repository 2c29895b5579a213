import WordMachine.Assembly.Pass
import WordMachine.Disassembly
import WordMachine.Image
import WordMachine.Text.Column

/-!
# Programs

After the pass, the operands that named later labels are filled in, in the order in which their
words were emitted. What results is a program: an image, its symbols, and the length of its code.
-/

namespace WordMachine.Assembly

structure Config where
  size : MemorySize := MemorySize.standard
  maxMacroDepth : Nat := 16

/-- The least memory, with macros that call no other macros. -/
def Config.least : Config where
  size := ⟨16, ⟨4, by decide⟩, by decide, by decide⟩
  maxMacroDepth := 1

structure Program where
  image : Image
  symbols : SymbolTable
  codeWords : Nat

def Program.listing (p : Program) : List DisassemblyRow :=
  (p.image.words.extract 0 p.codeWords).toList.mapIdx fun i w =>
    DisassemblyRow.ofWord (UInt16.ofNat i) w

structure Outcome where
  result : Except Error Program
  journal : Journal

namespace Draft

/-- The operand bits are replaced in whatever the cell holds by now. -/
def patch (d : Draft) (address : Nat) (name : String) (value : Word) : Draft :=
  { d with
    cells := d.cells.modify address fun w => (w &&& ~~~operandMask) ||| value
    journal := d.journal.push (.patched address name value) }

/-- Only a label may be named before its definition. -/
def resolve (d : Draft) (r : Reference) : Except Failure Draft :=
  match d.symbols.get? r.name with
  | some ⟨_, .label, value⟩ =>
    match operandOf value with
    | .error cause => .error (d.failure r.location cause)
    | .ok operand => .ok (d.patch r.address r.name operand)
  | _ => .error (d.failure r.location (.unresolvedReference r.name))

def resolveAll : List Reference → Draft → Except Failure Draft
  | [], d => .ok d
  | r :: rs, d =>
    match d.resolve r with
    | .error f => .error f
    | .ok d => resolveAll rs d

def program (d : Draft) : Program where
  image := Image.withUsed d.cells d.extent
  symbols := d.symbols
  codeWords := d.used

def finish (d : Draft) : Outcome :=
  match resolveAll d.references.toList d with
  | .error f => ⟨.error f.error, f.journal⟩
  | .ok d =>
    if d.isFull then ⟨.error ⟨.spaceExhausted, none⟩, d.journal⟩ else ⟨.ok d.program, d.journal⟩

end Draft

def assembleSource (config : Config) (lines : List String) : Outcome :=
  match assembleLines config.maxMacroDepth config.maxMacroDepth none 1 lines
      (Draft.empty config.size) with
  | .error f => ⟨.error f.error, f.journal⟩
  | .ok d => d.finish

def assemble (config : Config) (source : String) : Outcome :=
  assembleSource config (Text.lines source)

end WordMachine.Assembly
