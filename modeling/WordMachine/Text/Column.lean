/-!
# Lines, fields and columns

Every line feed ends a line, and so does the end of a text that does not end in one. A carriage
return before a line feed belongs to the line's end; at the end of the text it does not. The fields
are the maximal runs of characters that are not blank. In a column, a text that is too short is
followed by blanks, and a longer one is left whole.
-/

namespace WordMachine.Text

def closeLine : List Char → String
  | '\r' :: line => String.ofList line.reverse
  | line => String.ofList line.reverse

/-- `line` and `lines` hold what was read before, last first. -/
def splitLinesFrom : List Char → List Char → List String → List String
  | [], line, lines =>
    (if line.isEmpty then lines else String.ofList line.reverse :: lines).reverse
  | c :: cs, line, lines =>
    if c = '\n' then splitLinesFrom cs [] (closeLine line :: lines)
    else splitLinesFrom cs (c :: line) lines

theorem splitLinesFrom_eq_append (cs line : List Char) (lines : List String) :
    splitLinesFrom cs line lines = lines.reverse ++ splitLinesFrom cs line [] := by
  induction cs generalizing line lines with
  | nil => cases line <;> simp [splitLinesFrom]
  | cons c cs ih =>
    simp only [splitLinesFrom]
    split
    · rw [ih, ih [] [closeLine line]]
      simp
    · exact ih _ _

def lines (s : String) : List String := splitLinesFrom s.toList [] []

/-- The twenty-five characters of the Unicode property `White_Space`. -/
def isBlank (c : Char) : Bool :=
  let n := c.toNat
  (0x09 ≤ n && n ≤ 0x0D) || n == 0x20 || n == 0x85 || n == 0xA0 || n == 0x1680 ||
    (0x2000 ≤ n && n ≤ 0x200A) || n == 0x2028 || n == 0x2029 || n == 0x202F || n == 0x205F ||
    n == 0x3000

/-- `field` and `fields` hold what was read before, last first. -/
def splitFieldsFrom : List Char → List Char → List (List Char) → List (List Char)
  | [], field, fields => (if field.isEmpty then fields else field.reverse :: fields).reverse
  | c :: cs, field, fields =>
    if isBlank c then
      splitFieldsFrom cs [] (if field.isEmpty then fields else field.reverse :: fields)
    else
      splitFieldsFrom cs (c :: field) fields

theorem splitFieldsFrom_eq_append (cs field : List Char) (fields : List (List Char)) :
    splitFieldsFrom cs field fields = fields.reverse ++ splitFieldsFrom cs field [] := by
  induction cs generalizing field fields with
  | nil => cases field <;> simp [splitFieldsFrom]
  | cons c cs ih =>
    simp only [splitFieldsFrom]
    split
    · rw [ih, ih [] (if field.isEmpty then [] else [field.reverse])]
      cases field <;> simp
    · exact ih _ _

def splitFields (cs : List Char) : List (List Char) := splitFieldsFrom cs [] []

def fields (s : String) : List String := (splitFields s.toList).map String.ofList

def column (width : Nat) (s : String) : String := s.pushn ' ' (width - s.length)

end WordMachine.Text
