import WordMachine.CommandLine.Command
import WordMachine.Console.Stream

/-!
# Sessions

A host without a terminal: the files are those of a folder, the input is given in advance, and
output and diagnostics are kept.
-/

namespace WordMachine.CommandLine

/-- `input` is an error where the input cannot be read at all; an output that is full keeps
nothing. -/
structure Session where
  folder : Folder := {}
  input : Except FileError Octets := .ok []
  outputFull : Bool := false
  output : Octets := []
  diagnostics : String := ""

namespace Session

def console (s : Session) : StreamConsole where
  reads :=
    match s.input with
    | .ok bytes => bytes.map .byte
    | .error e => [.failed e.message]
  flushes := if s.outputFull then [.failed FileError.noSpace.message] else []

def print (text : String) : StateM Session Bool := fun s =>
  if s.outputFull then (false, s)
  else (true, { s with output := s.output ++ Octets.ofString text })

def report (text : String) : StateM Session Unit := fun s =>
  ((), { s with diagnostics := s.diagnostics ++ text })

def save (path : Path) (content : Octets) : StateM Session (Except SaveError Unit) := fun s =>
  match s.folder.save path content with
  | .ok folder => (.ok (), { s with folder })
  | .error e => (.error e, s)

def execute (tracing : Bool) (budget : Option Nat) (machine : Machine) :
    StateM Session RunReport := fun s =>
  let r := machine.run (fun _ => tracing) budget s.console
  let output := if s.outputFull then [] else r.console.output.toList
  (⟨r.cycles, r.outcome, r.machine⟩,
    { s with
      output := s.output ++ output
      diagnostics := s.diagnostics ++ String.join (r.notices.toList.map noticeLine) })

def host : Host (StateM Session) where
  read path := fun s => (s.folder.read path, s)
  save := save
  print := print
  report := report
  execute := execute

def invoke (s : Session) (args : List Octets) : Exit × Session := (host.invoke args).run s

end Session

end WordMachine.CommandLine
