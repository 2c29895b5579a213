import WordMachine.Assembly.Program
import WordMachine.Machine.Run
import WordMachine.Text.Column

/-!
# What a command shows

The lines of the usage, of the log, of a trace, of a listing and of a report.
-/

namespace WordMachine.CommandLine

open Text (column)
open Text.Hex (word padded)

def usage : String :=
  String.intercalate "\n"
    ["Usage: bitserial <command> [options]",
      "",
      "Commands:",
      "  build <input> [-o <output>] [--verbose]  Assemble source to a hex image",
      "  run   <input> [options]                  Load or assemble, then execute",
      "",
      "Options:",
      "  -o, --output <file>    Output image path (build default: input stem + .hex)",
      "  -v, --verbose          Print listing, symbols and assembler log to stderr (build only)",
      "      --asm              Treat the run input as assembly source",
      "      --hex              Treat the run input as a hex image",
      "  -c, --cycles <n>       Stop after n cycles (0 = no limit)",
      "  -t, --trace            Trace every cycle and engine log records to stderr",
      "      --switches <hex>   Initial switch positions",
      "",
      "Examples:",
      "  bitserial build echo.asm",
      "  bitserial run echo.asm -t",
      "  bitserial run echo.hex -c 1000",
      ""]

def logLine (r : LogRecord) : String := column 5 r.level.name ++ " " ++ r.text ++ "\n"

def isShown (r : LogRecord) : Bool := r.level ≠ .trace

def logLines (rs : List LogRecord) : String := String.join ((rs.filter isShown).map logLine)

def registersText (acc flags : Word) : String :=
  "acc=" ++ word acc ++ " flags=" ++ Flag.summary flags

def eventLine : Event → String
  | .start pc w acc flags =>
    word pc ++ ": " ++ word w ++ "  " ++ column 16 (disassemble w) ++ " " ++
      registersText acc flags ++ "\n"
  | .portRead port value => "      port " ++ toString port.index ++ " -> " ++ word value ++ "\n"
  | .portWrite port value => "      port " ++ toString port.index ++ " <- " ++ word value ++ "\n"
  | .reset pc => word pc ++ ": reset\n"
  | .halted pc => word pc ++ ": halted\n"
  | .fault cause pc =>
    word pc ++ ": fault 0x" ++ padded 2 cause.code ++ ": " ++ cause.message ++ "\n"

def noticeLine : Notice → String
  | .event e => eventLine e
  | .remark r => logLine r.record

def listingLine (r : DisassemblyRow) : String :=
  word r.address ++ ": " ++ word r.word ++ "  " ++ r.text ++ "\n"

def symbolLine (s : Assembly.Symbol) : String :=
  column 16 s.name ++ " " ++ column 8 s.kind.name ++ " $" ++ word s.value ++ "\n"

def listing (p : Assembly.Program) : String :=
  let symbols := p.symbols.toList.map symbolLine
  String.join (p.listing.map listingLine) ++
    (if symbols.isEmpty then "" else "\n" ++ String.join symbols)

def runSummary (cycles : Nat) (m : Machine) : String :=
  toString cycles ++ " cycles, pc=" ++ word m.registers.pc ++ " " ++
    registersText m.registers.acc m.registers.flags ++ " leds=" ++ word m.ports.leds ++ "\n"

def faultReport (cause : Fault) (cycles : Nat) (m : Machine) : String :=
  "error: fault at " ++ word m.registers.pc ++ " after " ++ toString cycles ++ " cycles: " ++
    cause.message ++ " (" ++ registersText m.registers.acc m.registers.flags ++ ")\n"

end WordMachine.CommandLine
