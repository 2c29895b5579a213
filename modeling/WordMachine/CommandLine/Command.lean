import WordMachine.CommandLine.Folder
import WordMachine.CommandLine.Rendering
import WordMachine.CommandLine.Request

/-!
# Commands

`build` assembles a source and saves its image. `run` loads an image or assembles a source, saves
the image if asked, and then executes it. What a command needs from outside is its host.
-/

namespace WordMachine.CommandLine

inductive Exit
  | success
  | usage
  | unreadable
  | unloadable
  | unassembled
  | faulted
  | unsaved
  | unprinted
  deriving DecidableEq, Repr

def Exit.code : Exit → UInt8
  | success => 0
  | usage => 1
  | unreadable => 2
  | unloadable => 3
  | unassembled => 4
  | faulted => 5
  | unsaved => 6
  | unprinted => 101

structure RunReport where
  cycles : Nat
  outcome : StepOutcome
  machine : Machine

/-- `print` goes to the output and answers whether it got there; `report` goes to the diagnostics.
`execute` runs a machine on the host's console and reports its notices if asked. -/
structure Host (m : Type → Type) where
  read : Path → m (Except FileError Octets)
  save : Path → Octets → m (Except SaveError Unit)
  print : String → m Bool
  report : String → m Unit
  execute : (tracing : Bool) → (budget : Option Nat) → Machine → m RunReport

namespace Host

variable {m : Type → Type} [Monad m]

def fail {α : Type} (host : Host m) (exit : Exit) (message : String) : ExceptT Exit m α := do
  host.report (message ++ "\n")
  throw exit

def readText (host : Host m) (path : Path) : ExceptT Exit m String := do
  match ← host.read path with
  | .error e =>
    host.fail .unreadable ("error: failed to read " ++ path.text ++ ": " ++ e.message)
  | .ok content =>
    match content.text? with
    | some text => return text
    | none =>
      host.fail .unreadable
        ("error: failed to read " ++ path.text ++ ": stream did not contain valid UTF-8")

def assembleFile (host : Host m) (path : Path) (logging : Bool) :
    ExceptT Exit m Assembly.Program := do
  let source ← host.readText path
  let outcome := Assembly.assemble {} source
  if logging then host.report (logLines outcome.journal.records)
  match outcome.result with
  | .ok program => return program
  | .error e => host.fail .unassembled (path.text ++ ": " ++ e.report)

def saveImage (host : Host m) (image : Image) (path : Path) : ExceptT Exit m Unit := do
  match ← host.save path (Octets.ofString image.text) with
  | .ok () => return ()
  | .error (.create e) => host.fail .unsaved ("error: failed to write output: " ++ e.message)
  | .error (.write e) =>
    host.fail .unsaved
      ("error: failed to write output: " ++ (ImageError.writeFailed e.message).message)

def printLine (host : Host m) (line : String) : ExceptT Exit m Unit := do
  unless ← host.print (line ++ "\n") do
    host.fail .unprinted ("failed printing to stdout: " ++ FileError.noSpace.message)

def build (host : Host m) (r : BuildRequest) : ExceptT Exit m Unit := do
  let program ← host.assembleFile r.input r.verbose
  let output := r.output.getD r.input.imageBeside
  host.saveImage program.image output
  if r.verbose then host.report (listing program)
  host.printLine ("Assembled " ++ r.input.text ++ " (" ++
    toString program.image.savedWords.size ++ " words) -> " ++ output.text)

def formatOf (path : Path) : Format :=
  match path.extension?.bind Octets.text? with
  | some "asm" | some "s" => .assembly
  | _ => .hex

def loadImage (host : Host m) (r : RunRequest) : ExceptT Exit m Image := do
  match r.format.getD (formatOf r.input) with
  | .assembly =>
    let program ← host.assembleFile r.input r.trace
    return program.image
  | .hex =>
    let text ← host.readText r.input
    match Image.parse text MemorySize.standard with
    | .ok image => return image
    | .error e =>
      host.fail .unloadable ("error: failed to load " ++ r.input.text ++ ": " ++ e.message)

def run (host : Host m) (r : RunRequest) : ExceptT Exit m Unit := do
  let image ← host.loadImage r
  match r.output with
  | none => pure ()
  | some path => host.saveImage image path
  let machine := (Machine.powerOn MemorySize.standard r.switches).load image.words
  let ⟨cycles, outcome, machine⟩ ← host.execute r.trace r.maxCycles machine
  if r.trace then host.report (runSummary cycles machine)
  match outcome with
  | .fault cause =>
    host.report (faultReport cause cycles machine)
    throw .faulted
  | _ => return ()

def perform (host : Host m) (request : Except UsageError Request) : ExceptT Exit m Unit := do
  match request with
  | .ok .help => host.printLine usage
  | .ok (.build r) => host.build r
  | .ok (.run r) => host.run r
  | .error .help =>
    host.printLine usage
    throw .usage
  | .error e => host.fail .usage ("error: " ++ e.message ++ "\n" ++ usage)

def invoke (host : Host m) (args : List Octets) : m Exit := do
  match ← (host.perform (Request.ofArguments args)).run with
  | .ok () => return .success
  | .error exit => return exit

end Host

end WordMachine.CommandLine
