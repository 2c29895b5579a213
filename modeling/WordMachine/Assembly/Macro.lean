import Std.Data.HashMap
import WordMachine.Assembly.Statement

/-!
# Macros

A macro has no parameters: its body is a list of source lines, kept as text and read anew at each
expansion.
-/

namespace WordMachine.Assembly

structure MacroTable where
  bodies : Std.HashMap String (List String) := ∅

namespace MacroTable

def get? (t : MacroTable) (name : String) : Option (List String) := t.bodies[name]?

def contains (t : MacroTable) (name : String) : Bool := t.bodies.contains name

def insert (t : MacroTable) (name : String) (body : List String) : MacroTable :=
  ⟨t.bodies.insert name body⟩

def define (t : MacroTable) (name : String) (body : List String) : Except Cause MacroTable :=
  if t.contains name then .error (.duplicateDefinition name) else .ok (t.insert name body)

theorem get?_insert (t : MacroTable) (name other : String) (body : List String) :
    (t.insert name body).get? other = if name = other then some body else t.get? other := by
  simp [insert, get?, Std.HashMap.getElem?_insert]

theorem define_of_free {t : MacroTable} {name : String} (body : List String)
    (h : t.contains name = false) : t.define name body = .ok (t.insert name body) := by
  simp [define, h]

theorem define_of_taken {t : MacroTable} {name : String} (body : List String)
    (h : t.contains name = true) : t.define name body = .error (.duplicateDefinition name) := by
  simp [define, h]

theorem contains_eq_isSome_get? (t : MacroTable) (name : String) :
    t.contains name = (t.get? name).isSome := by
  simp [contains, get?]

end MacroTable

def closesMacro (line : String) : Bool :=
  match tokenize line with
  | first :: _ => Directive.ofKeyword? first = some .endMacro
  | [] => false

def captureBody (lines : List String) : Option (List String × List String) :=
  match lines.dropWhile (!closesMacro ·) with
  | [] => none
  | _ :: rest => some (lines.takeWhile (!closesMacro ·), rest)

end WordMachine.Assembly
