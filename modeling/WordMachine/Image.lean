import WordMachine.Memory
import WordMachine.Text.Column
import WordMachine.Text.Numeral
import WordMachine.Text.Quoted

/-!
# Memory images

An image is a sequence of words for the cells from address 0. As text it is its words in
hexadecimal, four digits to a line; on reading, the words may be separated by any blanks.
-/

namespace WordMachine

inductive ImageError
  | invalidWord (index : Nat) (token : String)
  | writeFailed (cause : String)
  deriving DecidableEq, Repr

def ImageError.message : ImageError → String
  | invalidWord index token =>
    "invalid hex word " ++ Text.quoted token ++ " at word " ++ toString index
  | writeFailed cause => "image write failed: " ++ cause

/-- Where the used length is tracked, only the used words are saved. -/
structure Image where
  words : Array Word
  used : Option Nat := none
  used_le : ∀ n ∈ used, n ≤ words.size := by simp
  deriving DecidableEq

namespace Image

def ofWords (words : Array Word) : Image := { words }

def withUsed (words : Array Word) (used : Nat) : Image where
  words := words
  used := some (min used words.size)
  used_le := by
    intro n hn
    obtain rfl := Option.some.inj hn
    exact Nat.min_le_right _ _

def savedWords (image : Image) : Array Word :=
  match image.used with
  | none => image.words
  | some n => image.words.extract 0 n

def readWord? (token : String) : Option Word :=
  Text.Hex.signedWord? (Text.Hex.afterRadix token.toList)

/-- `words` are those before `tokens`, which fixes the index of each token. -/
def readWords : List String → Array Word → Except ImageError (Array Word)
  | [], words => .ok words
  | token :: tokens, words =>
    match readWord? token with
    | some w => readWords tokens (words.push w)
    | none => .error (.invalidWord words.size token)

/-- Reads no more words than a memory of this size holds, and does not look at what follows. -/
def parse (text : String) (size : MemorySize) : Except ImageError Image :=
  (readWords ((Text.fields text).take size.words) #[]).map ofWords

def wordLine (w : Word) : String := Text.Hex.word w ++ "\n"

def text (image : Image) : String := String.join (image.savedWords.toList.map wordLine)

end Image

def Memory.image (m : Memory) : Image := Image.ofWords m.cells

end WordMachine
