import WordMachine.Word

/-!
# Numerals

Hexadecimal words are written in lower case and read in either case. A word has at most sixteen
bits, however many zeros lead it. A count is a decimal number of at most sixty-four bits, with an
optional plus sign.
-/

namespace WordMachine.Text

namespace Hex

def digit (n : Nat) : Char :=
  if n < 10 then Char.ofNat (48 + n) else Char.ofNat (87 + n)

def digitValue? (c : Char) : Option Nat :=
  if '0' ≤ c ∧ c ≤ '9' then some (c.toNat - 48)
  else if 'a' ≤ c ∧ c ≤ 'f' then some (c.toNat - 87)
  else if 'A' ≤ c ∧ c ≤ 'F' then some (c.toNat - 55)
  else none

def digits : Nat → Nat → List Char
  | 0, _ => []
  | width + 1, n => digits width (n / 16) ++ [digit (n % 16)]

@[simp] theorem length_digits (width n : Nat) : (digits width n).length = width := by
  induction width generalizing n with
  | zero => rfl
  | succ width ih => simp [digits, ih]

def padded (width n : Nat) : String := String.ofList (digits width n)

def word (w : Word) : String := padded 4 w.toNat

def plain (n : Nat) : String :=
  match (digits 8 n).dropWhile (· = '0') with
  | [] => "0"
  | ds => String.ofList ds

def shiftIn (n : Nat) (c : Char) : Option Nat :=
  (digitValue? c).bind fun d => if 16 * n + d < 65536 then some (16 * n + d) else none

def word? (cs : List Char) : Option Word :=
  if cs.isEmpty then none else (cs.foldlM shiftIn 0).map UInt16.ofNat

def signedWord? : List Char → Option Word
  | '+' :: cs => word? cs
  | cs => word? cs

def afterRadix : List Char → List Char
  | '0' :: 'x' :: cs => cs
  | '0' :: 'X' :: cs => cs
  | cs => cs

end Hex

namespace Decimal

def shiftIn (n : Nat) (c : Char) : Option Nat :=
  if '0' ≤ c ∧ c ≤ '9' then
    let next := 10 * n + (c.toNat - 48)
    if next < UInt64.size then some next else none
  else none

def digits? (cs : List Char) : Option Nat :=
  if cs.isEmpty then none else cs.foldlM shiftIn 0

def count? (s : String) : Option Nat :=
  match s.toList with
  | '+' :: cs => digits? cs
  | cs => digits? cs

end Decimal

end WordMachine.Text
