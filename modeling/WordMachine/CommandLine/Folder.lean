import WordMachine.CommandLine.Path

/-!
# Folders

The files that a command can reach, seen from the directory in which it runs. A path is walked name
by name; what cannot be walked, read or written is answered by the reason.
-/

namespace WordMachine.CommandLine

inductive FileError
  | notFound
  | notADirectory
  | isADirectory
  | nameTooLong
  | noSpace
  | other (message : String)
  deriving DecidableEq, Repr

def FileError.message : FileError → String
  | notFound => "No such file or directory (os error 2)"
  | notADirectory => "Not a directory (os error 20)"
  | isADirectory => "Is a directory (os error 21)"
  | nameTooLong => "File name too long (os error 36)"
  | noSpace => "No space left on device (os error 28)"
  | other message => message

inductive SaveError
  | create (e : FileError)
  | write (e : FileError)
  deriving DecidableEq, Repr

/-- A device takes what is written to it and holds nothing. -/
inductive Node
  | file (content : Octets)
  | directory
  | device
  deriving DecidableEq, Repr

def Node.content : Node → Octets
  | file content => content
  | directory | device => []

inductive Access
  | search
  | read
  | create
  | write
  deriving DecidableEq, Repr

inductive Base
  | root
  | above (levels : Nat)
  deriving DecidableEq, Repr

/-- The names that lead from a base, the last one first. -/
structure Place where
  base : Base
  names : List Octets
  deriving DecidableEq, Repr

namespace Place

def here : Place := ⟨.above 0, []⟩

def child (p : Place) (name : Octets) : Place := ⟨p.base, name :: p.names⟩

def parent (p : Place) : Place :=
  match p.names, p.base with
  | _ :: names, base => ⟨base, names⟩
  | [], .root => ⟨.root, []⟩
  | [], .above levels => ⟨.above (levels + 1), []⟩

end Place

/-- What stands at the places, and what they refuse whatever stands there. -/
structure Folder where
  nodes : List (Place × Node) := []
  refusals : List ((Place × Access) × FileError) := []
  deriving DecidableEq

namespace Folder

def node? (f : Folder) (p : Place) : Option Node :=
  if p.names.isEmpty then some .directory else f.nodes.lookup p

def refusal? (f : Folder) (p : Place) (a : Access) : Option FileError := f.refusals.lookup (p, a)

def put (f : Folder) (p : Place) (n : Node) : Folder :=
  { f with nodes := (p, n) :: f.nodes.filter (·.1 ≠ p) }

def look (f : Folder) (p : Place) : Except FileError (Option Node) :=
  if p.names.head?.any (255 < ·.length) then .error .nameTooLong else .ok (f.node? p)

def walk (f : Folder) : Place → List Octets → Except FileError Place
  | p, [] => .ok p
  | p, name :: names =>
    match f.look p with
    | .error e => .error e
    | .ok none => .error .notFound
    | .ok (some .directory) =>
      match f.refusal? p .search with
      | some e => .error e
      | none =>
        if name = [Path.dot] then f.walk p names
        else if name = [Path.dot, Path.dot] then f.walk p.parent names
        else f.walk (p.child name) names
    | .ok (some _) => .error .notADirectory

def find (f : Folder) (path : Path) : Except FileError Place :=
  if path.octets.isEmpty then .error .notFound
  else if 4096 ≤ path.octets.length then .error .nameTooLong
  else
    let start : Place := if path.octets.head? = some Path.slash then ⟨.root, []⟩ else .here
    f.walk start ((Path.pieces path.octets).filter (!·.isEmpty))

def asksForDirectory (path : Path) : Bool := path.octets.getLast? = some Path.slash

def read (f : Folder) (path : Path) : Except FileError Octets :=
  match f.find path with
  | .error e => .error e
  | .ok place =>
    match f.look place with
    | .error e => .error e
    | .ok none => .error .notFound
    | .ok (some .directory) => .error ((f.refusal? place .read).getD .isADirectory)
    | .ok (some node) =>
      if asksForDirectory path then .error .notADirectory
      else
        match f.refusal? place .read with
        | some e => .error e
        | none => .ok node.content

/-- Why the place does not take the content, if it does not. Nothing is written of an empty one. -/
def refusalToSave? (f : Folder) (p : Place) (content : Octets) : Option SaveError :=
  match f.refusal? p .create with
  | some e => some (.create e)
  | none => if content.isEmpty then none else (f.refusal? p .write).map .write

/-- A save that is refused has no effect. A path that ends in a slash is refused before its last
name is looked at. -/
def save (f : Folder) (path : Path) (content : Octets) : Except SaveError Folder :=
  match f.find path with
  | .error e => .error (.create e)
  | .ok place =>
    if asksForDirectory path then .error (.create .isADirectory)
    else
      match f.look place with
      | .error e => .error (.create e)
      | .ok (some .directory) => .error (.create .isADirectory)
      | .ok node =>
        match f.refusalToSave? place content with
        | some e => .error e
        | none => .ok (if node = some .device then f else f.put place (.file content))

def addDirectory (f : Folder) (start : Place) (names : List Octets) : Folder :=
  (names.foldl (fun (g, p) name => (put g (p.child name) .directory, p.child name)) (f, start)).1

def add (f : Folder) (start : Place) (names : List Octets) (n : Node) : Folder :=
  let p := names.foldl Place.child start
  (f.addDirectory start names.dropLast).put p n

def devices : Folder :=
  let dev := Octets.ofString "dev"
  let full := Octets.ofString "full"
  let refusing : Folder := { refusals := [((⟨.root, [full, dev]⟩, .write), .noSpace)] }
  (refusing.add ⟨.root, []⟩ [dev, Octets.ofString "null"] .device).add ⟨.root, []⟩ [dev, full]
    .device

/-- The files below the starting directory that `before` does not hold with this content. -/
def changes (before after : Folder) : List (Octets × Octets) :=
  after.nodes.filterMap fun (p, n) =>
    match n with
    | .file content =>
      if p.base = .above 0 ∧ before.node? p ≠ some n then
        some (Path.join p.names.reverse, content)
      else none
    | _ => none

end Folder

end WordMachine.CommandLine
