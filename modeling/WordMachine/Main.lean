import WordMachine.CommandLine.Command
import WordMachine.Console.Stream
import WordMachine.Machine.Demand

/-!
# The program

The command line on the real files and the real terminal. A byte is fetched from the standard input
only when the next cycle asks for it, after what the same cycle transmits has been written.
-/

namespace WordMachine.CommandLine.Terminal

def fileError : IO.Error → FileError
  | .noFileOrDirectory .. => .notFound
  | .resourceExhausted .. => .noSpace
  | .invalidArgument _ code _ => if code = 36 ∨ code = -36 then .nameTooLong else .notFound
  | .inappropriateType _ code _ => if code = 21 then .isADirectory else .notADirectory
  | e => .other (toString e)

def read (path : Path) : IO (Except FileError Octets) := do
  try
    return .ok (← IO.FS.readBinFile path.text).toList
  catch e =>
    return .error (fileError e)

def fill (file : IO.FS.Handle) (content : Octets) : IO (Except SaveError Unit) := do
  try
    file.write ⟨content.toArray⟩
    file.flush
    return .ok ()
  catch e =>
    return .error (.write (fileError e))

def save (path : Path) (content : Octets) : IO (Except SaveError Unit) := do
  try
    fill (← IO.FS.Handle.mk path.text .write) content
  catch e =>
    return .error (.create (fileError e))

def print (text : String) : IO Bool := do
  try
    let output ← IO.getStdout
    output.putStr text
    output.flush
    return true
  catch _ =>
    return false

def report (text : String) : IO Unit := do (← IO.getStderr).putStr text

def transmit (byte : UInt8) : IO FlushAnswer := do
  try
    let output ← IO.getStdout
    output.write ⟨#[byte]⟩
    output.flush
    return .done
  catch e =>
    return .failed (fileError e).message

def receive : IO ReadAnswer := do
  try
    match (← (← IO.getStdin).read 1).toList with
    | [] => return .ended
    | byte :: _ => return .byte byte
  catch e =>
    return .failed (fileError e).message

def receiveIf (asked : Bool) : IO (List ReadAnswer) := do
  if asked then return [← receive] else return []

def answer (d : Demand) : IO StreamConsole := do
  match d.transmit with
  | none => return { reads := ← receiveIf d.receive }
  | some byte =>
    let flushed ← transmit byte
    return { flushes := [flushed], reads := ← receiveIf (d.receive && flushed = .done) }

partial def execute (tracing : Bool) (budget : Option Nat) (machine : Machine) : IO RunReport :=
  let rec go (cycles : Nat) (m : Machine) : IO RunReport := do
    if budget = some cycles then return ⟨cycles, .continuing, m⟩
    let c := m.step (← answer m.demand)
    if tracing then c.notices.forM fun n => report (noticeLine n)
    match c.outcome with
    | .continuing => go (cycles + 1) c.machine
    | outcome => return ⟨cycles, outcome, c.machine⟩
  go 0 machine

def host : Host IO := { read, save, print, report, execute }

end WordMachine.CommandLine.Terminal

open WordMachine.CommandLine in
def main (args : List String) : IO UInt32 := do
  let exit ← Terminal.host.invoke (args.map WordMachine.Octets.ofString)
  return exit.code.toUInt32
