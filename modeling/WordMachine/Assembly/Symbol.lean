import Std.Data.HashMap
import WordMachine.Assembly.Error

/-!
# Symbols

A symbol names a data cell, a code address or a value. A table keeps its symbols in the order of
their definitions; a name is defined once and for all.
-/

namespace WordMachine.Assembly

inductive SymbolKind
  | dataCell
  | label
  | constant
  deriving DecidableEq, Repr

def SymbolKind.name : SymbolKind → String
  | dataCell => "variable"
  | label => "label"
  | constant => "constant"

structure Symbol where
  name : String
  kind : SymbolKind
  value : Word
  deriving DecidableEq, Repr

/-- The index leads from a name to its place among the entries. -/
structure SymbolTable where
  entries : Array Symbol := #[]
  index : Std.HashMap String Nat := ∅

namespace SymbolTable

def empty : SymbolTable := {}

def get? (t : SymbolTable) (name : String) : Option Symbol :=
  t.index[name]?.bind fun place => t.entries[place]?

def contains (t : SymbolTable) (name : String) : Bool := t.index.contains name

def insert (t : SymbolTable) (s : Symbol) : SymbolTable :=
  let place := t.entries.size
  ⟨t.entries.push s, t.index.insert s.name place⟩

def define (t : SymbolTable) (s : Symbol) : Except Cause SymbolTable :=
  if t.contains s.name then .error (.duplicateDefinition s.name) else .ok (t.insert s)

def toList (t : SymbolTable) : List Symbol := t.entries.toList

def size (t : SymbolTable) : Nat := t.entries.size

@[simp] theorem toList_insert (t : SymbolTable) (s : Symbol) :
    (t.insert s).toList = t.toList ++ [s] := by
  simp [insert, toList]

@[simp] theorem size_insert (t : SymbolTable) (s : Symbol) : (t.insert s).size = t.size + 1 := by
  simp [insert, size]

theorem contains_insert (t : SymbolTable) (s : Symbol) (name : String) :
    (t.insert s).contains name = (s.name == name || t.contains name) := by
  simp [insert, contains, Std.HashMap.contains_insert]

end SymbolTable

end WordMachine.Assembly
