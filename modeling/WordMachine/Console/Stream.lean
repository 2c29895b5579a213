import WordMachine.Console

/-!
# Stream consoles

A console over a reader and a writer. Each is given by its script, the answers to the calls to
come: a spent reader is at its end, a spent writer accepts, a spent flush succeeds. Interrupted
reads and writes are repeated. A byte is flushed as soon as the writer has accepted it, once.
-/

namespace WordMachine

inductive ReadAnswer
  | byte (b : UInt8)
  | ended
  | interrupted
  | failed (cause : String)
  deriving DecidableEq, Repr

inductive WriteAnswer
  | accepted
  | nothingTaken
  | interrupted
  | failed (cause : String)
  deriving DecidableEq, Repr

inductive FlushAnswer
  | done
  | interrupted
  | failed (cause : String)
  deriving DecidableEq, Repr

structure StreamConsole where
  reads : List ReadAnswer := []
  writes : List WriteAnswer := []
  flushes : List FlushAnswer := []
  output : Array UInt8 := #[]
  deriving DecidableEq

namespace StreamConsole

/-- The reader yields the bytes and then its end; the writer accepts everything. -/
def ofInput (bytes : List UInt8) : StreamConsole := { reads := bytes.map .byte }

def nextByte : List ReadAnswer → Except ConsoleError (Option UInt8) × List ReadAnswer
  | [] => (.ok none, [])
  | .byte b :: rest => (.ok (some b), rest)
  | .ended :: rest => (.ok none, rest)
  | .interrupted :: rest => nextByte rest
  | .failed cause :: rest => (.error (.read cause), rest)

def offer : List WriteAnswer → Except ConsoleError Unit × List WriteAnswer
  | [] => (.ok (), [])
  | .accepted :: rest => (.ok (), rest)
  | .nothingTaken :: rest => (.error (.write "failed to write whole buffer"), rest)
  | .interrupted :: rest => offer rest
  | .failed cause :: rest => (.error (.write cause), rest)

def flush : List FlushAnswer → Except ConsoleError Unit × List FlushAnswer
  | [] => (.ok (), [])
  | .done :: rest => (.ok (), rest)
  | .interrupted :: rest => (.error (.write "interrupted"), rest)
  | .failed cause :: rest => (.error (.write cause), rest)

def writeByte (c : StreamConsole) (byte : UInt8) : Except ConsoleError Unit × StreamConsole :=
  match offer c.writes with
  | (.error e, writes) => (.error e, { c with writes })
  | (.ok (), writes) =>
    let (answer, flushes) := flush c.flushes
    (answer, { c with writes, flushes, output := c.output.push byte })

def readByte (c : StreamConsole) : Except ConsoleError (Option UInt8) × StreamConsole :=
  let (answer, reads) := nextByte c.reads
  (answer, { c with reads })

instance : Console StreamConsole where
  writeByte := writeByte
  readByte := readByte
  inputReady c := (true, c)

end StreamConsole

end WordMachine
