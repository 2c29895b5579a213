import WordMachine.Assembly.Error
import WordMachine.Instruction
import WordMachine.Text.Column

/-!
# Statements

A line is its fields; a semicolon or a number sign starts a comment. The number of fields and the
first of them say what the line is. The other fields are kept as they are written, since what they
mean depends on the names defined so far. A field that begins with a dollar sign is a number, and an
error if its digits do not make a word.
-/

namespace WordMachine.Assembly

def startsComment (c : Char) : Bool := c == ';' || c == '#'

def stripComment (line : String) : String :=
  String.ofList (line.toList.takeWhile (!startsComment ·))

def tokenize (line : String) : List String := Text.fields (stripComment line)

/-- The number that a field denotes, or `none` for a field that is not written as a number. -/
def number? (token : String) : Except Cause (Option Word) :=
  match token.toList with
  | '$' :: cs =>
    match Text.Hex.word? (Text.Hex.afterRadix cs) with
    | some w => .ok (some w)
    | none => .error (.malformedNumber token)
  | _ => .ok none

inductive Directive
  | dataCell
  | label
  | allocate
  | beginMacro
  | set
  | constant
  | endMacro
  deriving DecidableEq, Repr

def Directive.ofKeyword? (name : String) : Option Directive :=
  if name = "variable" then some .dataCell
  else if name = "label" then some .label
  else if name = "allocate" then some .allocate
  else if name = "macro" then some .beginMacro
  else if name = ".set" then some .set
  else if name = ".constant" then some .constant
  else if name = ".end" then some .endMacro
  else none

/-- `nop` changes nothing and `clr` clears the accumulator. -/
def pseudoWord? (name : String) : Option Word :=
  if name = "nop" then some (Instruction.encode ⟨.or, 0⟩)
  else if name = "clr" then some (Instruction.encode ⟨.literal, 0⟩)
  else none

inductive Statement
  | blank
  | single (field : String)
  | beginMacro (name : String)
  | dataCell (name : String)
  | label (name : String)
  | allocate (count : String)
  | instruction (opcode : Opcode) (operand : String)
  | set (target value : String)
  | constant (name value : String)
  deriving DecidableEq, Repr

namespace Statement

def ofPair (first second : String) : Except Cause Statement :=
  match Directive.ofKeyword? first with
  | some .dataCell => .ok (dataCell second)
  | some .label => .ok (label second)
  | some .allocate => .ok (allocate second)
  | some .beginMacro => .ok (beginMacro second)
  | some .endMacro => .error .strayEnd
  | some .set | some .constant => .error (.missingOperand first)
  | none =>
    match Opcode.ofMnemonic? first with
    | some opcode => .ok (instruction opcode second)
    | none => .error (.unknownCommand first)

def ofTriple (first second third : String) : Except Cause Statement :=
  match Directive.ofKeyword? first with
  | some .set => .ok (set second third)
  | some .constant => .ok (constant second third)
  | _ => .error (.unknownCommand first)

def ofFields : List String → Except Cause Statement
  | [] => .ok blank
  | [field] => .ok (single field)
  | [first, second] => ofPair first second
  | [first, second, third] => ofTriple first second third
  | fields => .error (.tooManyFields fields.length)

end Statement

end WordMachine.Assembly
