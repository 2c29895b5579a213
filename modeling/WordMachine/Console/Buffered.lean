import WordMachine.Console

/-!
# Buffered consoles

Input waits in a queue and output is kept. Either direction can be made to fail; a failing read
takes nothing from the queue.
-/

namespace WordMachine

structure BufferedConsole where
  input : List UInt8 := []
  output : Array UInt8 := #[]
  failWrites : Bool := false
  failReads : Bool := false
  deriving DecidableEq

namespace BufferedConsole

def ofInput (bytes : List UInt8) : BufferedConsole := { input := bytes }

def pushInput (c : BufferedConsole) (bytes : List UInt8) : BufferedConsole :=
  { c with input := c.input ++ bytes }

def takeOutput (c : BufferedConsole) : Array UInt8 × BufferedConsole :=
  (c.output, { c with output := #[] })

def writeByte (c : BufferedConsole) (byte : UInt8) : Except ConsoleError Unit × BufferedConsole :=
  if c.failWrites then (.error (.write "output closed"), c)
  else (.ok (), { c with output := c.output.push byte })

def readByte (c : BufferedConsole) : Except ConsoleError (Option UInt8) × BufferedConsole :=
  if c.failReads then (.error (.read "input broken"), c)
  else
    match c.input with
    | [] => (.ok none, c)
    | byte :: rest => (.ok (some byte), { c with input := rest })

instance : Console BufferedConsole where
  writeByte := writeByte
  readByte := readByte
  inputReady c := (!c.input.isEmpty, c)

end BufferedConsole

end WordMachine
