import WordMachine.Assembly.Statement
import WordMachine.Assembly.Symbol
import WordMachine.Notice

/-!
# The journal of an assembly

Every line that does something leaves an entry, in the order in which it is done. Some entries are
log records.
-/

namespace WordMachine.Assembly

inductive Entry
  | emitted (address : Nat) (word : Word) (statement : Statement)
  | stored (address : Nat) (word : Word)
  | patched (address : Nat) (name : String) (value : Word)
  | defined (symbol : Symbol)
  /-- Data cells taken from the top of the free space; `start` is the lowest of them. -/
  | reserved (start count : Nat)
  | captured (name : String) (lines : Nat)
  | expanding (name : String) (depth : Nat)
  deriving DecidableEq, Repr

def Entry.record? : Entry → Option LogRecord
  | emitted address word _ =>
    some ⟨.trace, Text.Hex.padded 4 address ++ ": " ++ Text.Hex.word word⟩
  | stored address word =>
    some ⟨.trace, "set " ++ Text.Hex.padded 4 address ++ " = " ++ Text.Hex.word word⟩
  | patched address name value =>
    some ⟨.debug, "patched " ++ Text.Hex.padded 4 address ++ " -> " ++ name ++
      " (" ++ Text.Hex.word value ++ ")"⟩
  | captured name lines =>
    some ⟨.debug, "captured macro " ++ name ++ ": " ++ toString lines ++ " lines"⟩
  | expanding name depth =>
    some ⟨.debug, "expanding macro " ++ name ++ " at depth " ++ toString depth⟩
  | defined _ | reserved _ _ => none

abbrev Journal := Array Entry

def Journal.records (j : Journal) : List LogRecord := j.toList.filterMap Entry.record?

end WordMachine.Assembly
