import WordMachine.Word

/-!
# Flags

The flags register holds eight flags in its low byte. Three of them, zero, negative and parity,
restate the accumulator and are derived again before every instruction.
-/

namespace WordMachine

inductive Flag
  | carry
  | zero
  | negative
  | parity
  | rotate
  | reset
  | indirect
  | halt
  deriving DecidableEq, Repr

namespace Flag

def mask : Flag → Word
  | carry => 0x01
  | zero => 0x02
  | negative => 0x04
  | parity => 0x08
  | rotate => 0x10
  | reset => 0x20
  | indirect => 0x40
  | halt => 0x80

def isSet (f : Flag) (flags : Word) : Bool := flags &&& f.mask != 0

def write (mask : Word) (on : Bool) (flags : Word) : Word :=
  if on then flags ||| mask else flags &&& ~~~mask

def put (f : Flag) (on : Bool) (flags : Word) : Word := write f.mask on flags

def letter : Flag → Char
  | carry => 'C'
  | zero => 'Z'
  | negative => 'N'
  | parity => 'P'
  | rotate => 'O'
  | reset => 'R'
  | indirect => 'I'
  | halt => 'H'

def descending : List Flag := [halt, indirect, reset, rotate, parity, negative, zero, carry]

def summary (flags : Word) : String :=
  String.ofList (descending.map fun f => if f.isSet flags then f.letter else '-')

def statusMask : Word := 0x0E

def status (acc : Word) : Word :=
  (if acc = 0 then zero.mask else 0) |||
  (if 0x8000 ≤ acc then negative.mask else 0) |||
  (if acc.population % 2 = 0 then parity.mask else 0)

def derive (flags acc : Word) : Word := (flags &&& ~~~statusMask) ||| status acc

theorem status_and_statusMask (acc : Word) : status acc &&& statusMask = status acc := by
  simp only [status]
  split <;> split <;> split <;> decide

theorem isSet_derive {f : Flag} (h : statusMask &&& f.mask = 0) (flags acc : Word) :
    f.isSet (derive flags acc) = f.isSet flags := by
  have hs : status acc &&& f.mask = 0 := by
    rw [← status_and_statusMask, UInt16.and_assoc, h, UInt16.and_zero]
  have hm : ~~~statusMask &&& f.mask = f.mask := by
    revert h
    cases f <;> decide
  simp only [isSet, derive, Word.or_and, UInt16.and_assoc, hm, hs,
    UInt16.or_zero]

end Flag

end WordMachine
