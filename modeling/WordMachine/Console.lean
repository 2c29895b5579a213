/-!
# Consoles

A console carries bytes in both directions. A value of a console type is the console's whole state,
and each operation answers with the state after it. Every word is an instruction and every address
is reduced, so a machine fails where its console does, and nowhere else.
-/

namespace WordMachine

inductive ConsoleError
  | write (cause : String)
  | read (cause : String)
  deriving DecidableEq, Repr

def ConsoleError.message : ConsoleError → String
  | write cause => "console write failed: " ++ cause
  | read cause => "console read failed: " ++ cause

class Console (κ : Type) where
  writeByte : κ → UInt8 → Except ConsoleError Unit × κ
  /-- The next byte, or `none` at the end of the input. -/
  readByte : κ → Except ConsoleError (Option UInt8) × κ
  inputReady : κ → Bool × κ

inductive Fault
  | consoleWrite
  | consoleRead
  deriving DecidableEq, Repr

namespace Fault

def code : Fault → Nat
  | consoleWrite => 1
  | consoleRead => 2

def ofCode? : Nat → Option Fault
  | 1 => some consoleWrite
  | 2 => some consoleRead
  | _ => none

def message : Fault → String
  | consoleWrite => "console output stream failed"
  | consoleRead => "console input stream failed"

end Fault

end WordMachine
