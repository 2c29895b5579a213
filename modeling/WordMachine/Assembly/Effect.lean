import WordMachine.Assembly.Draft

/-!
# What a statement does

The effect of a statement, or the cause for which it has none, is found by looking at the draft
alone; only then is it applied.
-/

namespace WordMachine.Assembly

inductive Effect
  | nothing
  | emit (word : Word)
  /-- The word is complete but for the operand, whose name is not defined yet. -/
  | emitForward (name : String) (word : Word)
  | store (address : Nat) (word : Word)
  | define (symbol : Symbol)
  | defineCell (symbol : Symbol)
  | reserve (count : Nat)
  | expand (name : String) (body : List String)

def operandOf (value : Word) : Except Cause Word :=
  if operandMask < value then .error (.operandTooLarge value) else .ok value

def misuse (field : String) : Cause :=
  match Directive.ofKeyword? field with
  | some .endMacro => .strayEnd
  | some _ => .missingOperand field
  | none =>
    if (Opcode.ofMnemonic? field).isSome then .missingOperand field else .unknownCommand field

namespace Draft

def valueOf (d : Draft) (token : String) : Except Cause Word :=
  match number? token with
  | .error cause => .error cause
  | .ok (some w) => .ok w
  | .ok none =>
    match d.symbols.get? token with
    | some s => .ok s.value
    | none => .error (.undefinedSymbol token)

def countOf (d : Draft) (token : String) : Except Cause Nat :=
  match number? token with
  | .error cause => .error cause
  | .ok (some w) => .ok w.toNat
  | .ok none =>
    match d.symbols.get? token with
    | some ⟨_, .constant, value⟩ => .ok value.toNat
    | some _ => .error (.notAConstant token)
    | none => .error (.undefinedSymbol token)

/-- A field that stands alone is a number, a pseudo-instruction, a symbol or a macro, whichever it
is first. -/
def singleEffect (d : Draft) (field : String) : Except Cause Effect :=
  match number? field with
  | .error cause => .error cause
  | .ok (some w) => .ok (.emit w)
  | .ok none =>
    match pseudoWord? field with
    | some w => .ok (.emit w)
    | none =>
      match d.symbols.get? field with
      | some s => .ok (.emit s.value)
      | none =>
        match d.macros.get? field with
        | some body => .ok (.expand field body)
        | none => .error (misuse field)

def instructionEffect (d : Draft) (opcode : Opcode) (token : String) : Except Cause Effect :=
  let emit (operand : Word) : Effect := .emit (Instruction.encode ⟨opcode, operand⟩)
  match number? token with
  | .error cause => .error cause
  | .ok (some w) => (operandOf w).map emit
  | .ok none =>
    match d.symbols.get? token with
    | some s => (operandOf s.value).map emit
    | none => .ok (.emitForward token (Instruction.encode ⟨opcode, 0⟩))

/-- The target is checked before the value is looked at. -/
def setEffect (d : Draft) (target value : String) : Except Cause Effect :=
  match d.valueOf target with
  | .error cause => .error cause
  | .ok address =>
    if d.size.words ≤ address.toNat then .error (.addressOutOfRange address)
    else (d.valueOf value).map (.store address.toNat)

def allocateEffect (d : Draft) (count : String) : Except Cause Effect :=
  match d.countOf count with
  | .error cause => .error cause
  | .ok n => if d.data < n then .error .spaceExhausted else .ok (.reserve n)

def unlessDefined (d : Draft) (name : String) (effect : Effect) : Except Cause Effect :=
  if d.symbols.contains name then .error (.duplicateDefinition name) else .ok effect

/-- A statement that opens a macro acts on the lines that follow, not on the draft. -/
def effectOf (d : Draft) : Statement → Except Cause Effect
  | .blank | .beginMacro _ => .ok .nothing
  | .single field => d.singleEffect field
  | .dataCell name =>
    d.unlessDefined name (.defineCell ⟨name, .dataCell, UInt16.ofNat d.data⟩)
  | .label name => d.unlessDefined name (.define ⟨name, .label, UInt16.ofNat d.used⟩)
  | .allocate count => d.allocateEffect count
  | .instruction opcode operand => d.instructionEffect opcode operand
  | .set target value => d.setEffect target value
  | .constant name value =>
    match d.valueOf value with
    | .error cause => .error cause
    | .ok w => d.unlessDefined name (.define ⟨name, .constant, w⟩)

def apply (d : Draft) (here : Location) (s : Statement) : Effect → Draft
  | .nothing | .expand _ _ => d
  | .emit w => d.emit s w
  | .emitForward name w => (d.refer name here).emit s w
  | .store address w => d.store address w
  | .define symbol => d.define symbol
  | .defineCell symbol => (d.define symbol).reserve 1
  | .reserve count => d.reserve count

end Draft

end WordMachine.Assembly
