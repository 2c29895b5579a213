import WordMachine.CommandLine.Path
import WordMachine.Text.Numeral

/-!
# Requests

The arguments of a command are grouped into items, an option that takes a value together with that
value, whatever it looks like. The items are then gathered in order, and the first that is wrong is
reported.
-/

namespace WordMachine.CommandLine

inductive Format
  | assembly
  | hex
  deriving DecidableEq, Repr

structure BuildRequest where
  input : Path
  output : Option Path
  verbose : Bool
  deriving DecidableEq, Repr

structure RunRequest where
  input : Path
  format : Option Format
  output : Option Path
  maxCycles : Option Nat
  trace : Bool
  switches : Word
  deriving DecidableEq, Repr

inductive Request
  | help
  | build (r : BuildRequest)
  | run (r : RunRequest)
  deriving DecidableEq, Repr

inductive UsageError
  | help
  | missingCommand
  | unknownCommand (name : String)
  | unknownOption (name : String)
  | missingValue (option : String)
  | missingInput
  | multipleInputs
  | conflictingFormats
  | invalidCycles (text : String)
  | invalidSwitches (text : String)
  deriving DecidableEq, Repr

def UsageError.message : UsageError → String
  | help => ""
  | missingCommand => "missing command"
  | unknownCommand name => "unknown command: " ++ name
  | unknownOption name => "unknown option: " ++ name
  | missingValue option => "missing value for " ++ option
  | missingInput => "missing input path"
  | multipleInputs => "multiple input paths provided"
  | conflictingFormats => "--asm and --hex are mutually exclusive"
  | invalidCycles text => "invalid cycle count: " ++ text
  | invalidSwitches text => "invalid hex value: " ++ text

inductive Item
  | help
  | verbose
  | trace
  | format (f : Format)
  | output (path : Path)
  | cycles (text : String)
  | switches (text : String)
  | input (path : Path)
  | unknown (text : String)
  | valueless (option : String)
  deriving DecidableEq, Repr

namespace Item

def ofOther (arg : Octets) : Item :=
  if arg.head? = some 0x2D then unknown (Octets.lossyText arg) else input ⟨arg⟩

end Item

/-- What the text of an argument stands for: an item, or one that is made of the argument after
it. -/
inductive Meaning
  | alone (item : Item)
  | valued (option : String) (item : Octets → Item)

abbrev OptionTable := String → Option Meaning

namespace OptionTable

def build : OptionTable
  | "--help" | "-h" => some (.alone .help)
  | "--verbose" | "-v" => some (.alone .verbose)
  | "-o" | "--output" => some (.valued "-o" fun value => .output ⟨value⟩)
  | _ => none

def run : OptionTable
  | "--help" | "-h" => some (.alone .help)
  | "--asm" => some (.alone (.format .assembly))
  | "--hex" => some (.alone (.format .hex))
  | "--trace" | "-t" => some (.alone .trace)
  | "-o" | "--output" => some (.valued "-o" fun value => .output ⟨value⟩)
  | "-c" | "--cycles" => some (.valued "-c" fun value => .cycles (Octets.lossyText value))
  | "--switches" => some (.valued "--switches" fun value => .switches (Octets.lossyText value))
  | _ => none

def items (table : OptionTable) : List Octets → List Item
  | [] => []
  | arg :: rest =>
    match table (Octets.lossyText arg) with
    | some (.alone item) => item :: table.items rest
    | some (.valued option item) =>
      match rest with
      | [] => [.valueless option]
      | value :: rest => item value :: table.items rest
    | none => .ofOther arg :: table.items rest

end OptionTable

structure Gathered where
  input : Option Path := none
  format : Option Format := none
  output : Option Path := none
  maxCycles : Option Nat := none
  trace : Bool := false
  verbose : Bool := false
  switches : Word := 0
  deriving DecidableEq, Repr

/-- A word in hexadecimal, after an optional dollar sign or radix and an optional sign. -/
def readSwitches? (text : String) : Option Word :=
  match text.toList with
  | '$' :: cs => Text.Hex.signedWord? cs
  | cs => Text.Hex.signedWord? (Text.Hex.afterRadix cs)

namespace Gathered

/-- Later values replace earlier ones; the input and the format are given once. A budget of zero
cycles is no budget. -/
def gather (g : Gathered) : Item → Except UsageError Gathered
  | .help => .error .help
  | .verbose => .ok { g with verbose := true }
  | .trace => .ok { g with trace := true }
  | .format f =>
    if g.format.any (· ≠ f) then .error .conflictingFormats else .ok { g with format := some f }
  | .output path => .ok { g with output := some path }
  | .cycles text =>
    match Text.Decimal.count? text with
    | none => .error (.invalidCycles text)
    | some n => .ok { g with maxCycles := if n = 0 then none else some n }
  | .switches text =>
    match readSwitches? text with
    | none => .error (.invalidSwitches text)
    | some w => .ok { g with switches := w }
  | .input path =>
    if g.input.isSome then .error .multipleInputs else .ok { g with input := some path }
  | .unknown text => .error (.unknownOption text)
  | .valueless option => .error (.missingValue option)

def gatherAll : List Item → Gathered → Except UsageError Gathered
  | [], g => .ok g
  | item :: items, g =>
    match g.gather item with
    | .error e => .error e
    | .ok g => gatherAll items g

def ofArguments (table : OptionTable) (args : List Octets) :
    Except UsageError (Path × Gathered) :=
  match gatherAll (table.items args) {} with
  | .error e => .error e
  | .ok g =>
    match g.input with
    | none => .error .missingInput
    | some input => .ok (input, g)

end Gathered

def BuildRequest.ofArguments (args : List Octets) : Except UsageError BuildRequest :=
  (Gathered.ofArguments .build args).map fun (input, g) => ⟨input, g.output, g.verbose⟩

def RunRequest.ofArguments (args : List Octets) : Except UsageError RunRequest :=
  (Gathered.ofArguments .run args).map fun (input, g) =>
    ⟨input, g.format, g.output, g.maxCycles, g.trace, g.switches⟩

def Request.ofArguments : List Octets → Except UsageError Request
  | [] => .error .missingCommand
  | first :: rest =>
    let name := Octets.lossyText first
    if name = "--help" ∨ name = "-h" then .ok .help
    else if name = "build" then (BuildRequest.ofArguments rest).map .build
    else if name = "run" then (RunRequest.ofArguments rest).map .run
    else .error (.unknownCommand name)

end WordMachine.CommandLine
