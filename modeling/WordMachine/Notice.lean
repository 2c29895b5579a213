import WordMachine.Console
import WordMachine.Port
import WordMachine.Text.Numeral

/-!
# Notices

What the machine and the assembler remark while they work is a log record with its level. A running
machine gives notice of two kinds: events, which trace every cycle and every port access, and
remarks, which are log records. They are kept in one list, in the order in which they arise.
-/

namespace WordMachine

inductive Level
  | trace
  | debug
  | warn
  deriving DecidableEq, Repr

def Level.name : Level → String
  | trace => "TRACE"
  | debug => "DEBUG"
  | warn => "WARN"

structure LogRecord where
  level : Level
  text : String
  deriving DecidableEq, Repr

inductive Event
  | start (pc word acc flags : Word)
  | portRead (port : Port) (value : Word)
  | portWrite (port : Port) (value : Word)
  | reset (pc : Word)
  | halted (pc : Word)
  | fault (cause : Fault) (pc : Word)
  deriving DecidableEq, Repr

inductive Remark
  | resetRequested (pc : Word)
  | faultLatched (cause : Fault) (pc : Word)
  | inputClosed
  | consoleFailed (error : ConsoleError)
  deriving DecidableEq, Repr

def Remark.record : Remark → LogRecord
  | resetRequested pc => ⟨.debug, "reset requested at pc " ++ Text.Hex.word pc⟩
  | faultLatched cause pc =>
    ⟨.warn, "fault latched at pc " ++ Text.Hex.word pc ++ ": " ++ cause.message⟩
  | inputClosed => ⟨.warn, "console input closed"⟩
  | consoleFailed error => ⟨.warn, error.message⟩

inductive Notice
  | event (e : Event)
  | remark (r : Remark)
  deriving DecidableEq, Repr

namespace Notice

def event? : Notice → Option Event
  | event e => some e
  | remark _ => none

def record? : Notice → Option LogRecord
  | event _ => none
  | remark r => some r.record

end Notice

end WordMachine
