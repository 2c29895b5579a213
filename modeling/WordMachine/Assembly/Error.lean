import WordMachine.Text.Numeral

/-!
# Assembly errors

An error is a cause and the line on which it arose. Lines of a macro body are counted from the
start of the body and name the macro.
-/

namespace WordMachine.Assembly

inductive Cause
  | spaceExhausted
  | operandTooLarge (value : Word)
  | unknownCommand (name : String)
  | duplicateDefinition (name : String)
  | unresolvedReference (name : String)
  | unterminatedMacro (name : String)
  | malformedNumber (token : String)
  | missingOperand (name : String)
  | tooManyFields (count : Nat)
  | undefinedSymbol (name : String)
  | notAConstant (name : String)
  | addressOutOfRange (value : Word)
  | strayEnd
  | nestedMacro (name : String)
  | macroDepthExceeded (name : String) (limit : Nat)
  deriving DecidableEq, Repr

def Cause.message : Cause → String
  | spaceExhausted => "program space full"
  | operandTooLarge value => "operand too big: $" ++ Text.Hex.plain value.toNat
  | unknownCommand name => "unknown command: " ++ name
  | duplicateDefinition name => "duplicate definition: " ++ name
  | unresolvedReference name => "invalid reference: " ++ name
  | unterminatedMacro name => "unterminated macro: " ++ name
  | malformedNumber token => "malformed number: " ++ token
  | missingOperand name => "missing operand for " ++ name
  | tooManyFields count => "too many fields: " ++ toString count
  | undefinedSymbol name => "unknown variable: " ++ name
  | notAConstant name => "not a constant: " ++ name
  | addressOutOfRange value =>
    "address $" ++ Text.Hex.plain value.toNat ++ " is outside memory"
  | strayEnd => ".end outside of a macro definition"
  | nestedMacro name => "nested macro definition: " ++ name
  | macroDepthExceeded name limit =>
    "macro nesting deeper than " ++ toString limit ++ " levels in " ++ name

/-- A line, counted from 1, of the source or of the body of a macro. -/
structure Location where
  line : Nat
  inMacro : Option String := none
  deriving DecidableEq, Repr

def Location.text (l : Location) : String :=
  match l.inMacro with
  | none => "line " ++ toString l.line
  | some name => "line " ++ toString l.line ++ " in macro '" ++ name ++ "'"

/-- The location is absent where the program as a whole is at fault. -/
structure Error where
  cause : Cause
  location : Option Location := none
  deriving DecidableEq, Repr

namespace Error

def message (e : Error) : String :=
  match e.location with
  | none => e.cause.message
  | some l => l.text ++ ": " ++ e.cause.message

def report (e : Error) : String :=
  match e.location with
  | none => "error: " ++ e.cause.message
  | some l => l.text ++ ": error: " ++ e.cause.message

end Error

end WordMachine.Assembly
