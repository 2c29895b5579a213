import WordMachine.Text.Octets

/-!
# Paths

A path is a sequence of octets in which slashes separate names. Empty names and dots stand for
nothing, except that a leading slash or dot says where the path starts.
-/

namespace WordMachine.CommandLine

structure Path where
  octets : Octets
  deriving DecidableEq, Repr

namespace Path

def slash : UInt8 := 0x2F

def dot : UInt8 := 0x2E

def ofString (s : String) : Path := ⟨Octets.ofString s⟩

def text (p : Path) : String := Octets.lossyText p.octets

def pieces : Octets → List Octets
  | [] => [[]]
  | b :: bs =>
    if b = slash then [] :: pieces bs
    else
      match pieces bs with
      | [] => [[b]]
      | p :: ps => (b :: p) :: ps

def join (ps : List Octets) : Octets := List.intercalate [slash] ps

def isSilent (piece : Octets) : Bool := piece.isEmpty || piece == [dot]

def splitStart (bs : Octets) : Octets × Octets :=
  match bs with
  | [] => ([], [])
  | b :: rest =>
    if b = slash then ([slash], rest)
    else if b = dot ∧ (rest = [] ∨ rest.head? = some slash) then ([dot], rest)
    else ([], bs)

def dropSilentEnd (ps : List Octets) : List Octets := (ps.reverse.dropWhile isSilent).reverse

def fileName? (p : Path) : Option Octets :=
  match (dropSilentEnd (pieces (splitStart p.octets).2)).getLast? with
  | some name => if name = [dot, dot] then none else some name
  | none => none

def parent (p : Path) : Path :=
  let (start, body) := splitStart p.octets
  ⟨start ++ join (dropSilentEnd (dropSilentEnd (pieces body)).dropLast)⟩

/-- A file name before and after its last dot. A dot that leads the name separates nothing. -/
def splitExtension (name : Octets) : Octets × Option Octets :=
  let after := name.reverse.takeWhile (· ≠ dot)
  match name.reverse.dropWhile (· ≠ dot) with
  | _ :: b :: before => ((b :: before).reverse, some after.reverse)
  | _ => (name, none)

def stem? (p : Path) : Option Octets := p.fileName?.map fun name => (splitExtension name).1

def extension? (p : Path) : Option Octets := p.fileName?.bind fun name => (splitExtension name).2

def child (p : Path) (name : Octets) : Path :=
  if p.octets.isEmpty then ⟨name⟩
  else if p.octets.getLast? = some slash then ⟨p.octets ++ name⟩
  else ⟨p.octets ++ slash :: name⟩

/-- The image beside the source: its stem with the extension of images. A stem that is not text is
not taken over. -/
def imageBeside (source : Path) : Path :=
  let stem := ((source.stem?.bind Octets.text?).getD "out")
  source.parent.child (Octets.ofString (stem ++ ".hex"))

end Path

end WordMachine.CommandLine
