import WordMachine.Notice

/-!
# The port bank

Three registers stand behind the ports: the switches, which only the outside sets, the lights, and
the byte last received. A word written to the console port asks for a transmission, a reception, or
both in this order; a word read from it shows the received byte and whether input is waiting.
-/

namespace WordMachine

structure PortBank where
  switches : Word
  leds : Word := 0
  received : Word := 0
  deriving DecidableEq, Repr

inductive PortWrite
  | applied
  | ignored
  | inputClosed
  deriving DecidableEq, Repr

structure PortTransfer (κ : Type) where
  answer : Except Fault PortWrite
  bank : PortBank
  console : κ
  remarks : List Remark

namespace PortBank

def transmitBit : Word := 0x2000

def receiveBit : Word := 0x0400

def inputEmptyBit : Word := 0x0100

def endOfInput : Word := 0xFFFF

def requestsTransmit (value : Word) : Bool := value &&& transmitBit != 0

def requestsReceive (value : Word) : Bool := value &&& receiveBit != 0

variable {κ : Type} [Console κ]

def read (bank : PortBank) (port : Port) (console : κ) : Word × κ :=
  match port with
  | .switches => (bank.switches, console)
  | .console =>
    let (ready, console) := Console.inputReady console
    ((if ready then 0 else inputEmptyBit) ||| (bank.received &&& 0x00FF), console)
  | _ => (0, console)

def receive (bank : PortBank) (value : Word) (console : κ) : PortTransfer κ :=
  if requestsReceive value then
    match Console.readByte console with
    | (.ok (some byte), console) =>
      ⟨.ok .applied, { bank with received := byte.toUInt16 }, console, []⟩
    | (.ok none, console) =>
      ⟨.ok .inputClosed, { bank with received := endOfInput }, console, [.inputClosed]⟩
    | (.error e, console) => ⟨.error .consoleRead, bank, console, [.consoleFailed e]⟩
  else
    ⟨.ok .applied, bank, console, []⟩

/-- A failed transmission keeps the reception from being tried. -/
def transfer (bank : PortBank) (value : Word) (console : κ) : PortTransfer κ :=
  if requestsTransmit value then
    match Console.writeByte console value.lowByte with
    | (.ok (), console) => bank.receive value console
    | (.error e, console) => ⟨.error .consoleWrite, bank, console, [.consoleFailed e]⟩
  else
    bank.receive value console

def write (bank : PortBank) (port : Port) (value : Word) (console : κ) : PortTransfer κ :=
  match port with
  | .switches => ⟨.ok .applied, { bank with leds := value }, console, []⟩
  | .console => bank.transfer value console
  | _ => ⟨.ok .ignored, bank, console, []⟩

end PortBank

end WordMachine
