import WordMachine.Image
import WordMachine.Text.Octets

/-!
# Writing an image

An image is written line by line to a sink, and each line in a few pieces. The sink may take fewer
octets than it is offered and may fail at any of them.
-/

namespace WordMachine

/-- A sink answers an offer with how many of the octets it took. -/
class Sink (σ : Type) where
  accept : σ → Octets → Except String Nat × σ
  flush : σ → Except String Unit × σ

namespace Sink

variable {σ : Type} [Sink σ]

/-- Offers what is left until nothing is left. A sink that takes nothing will not take more. -/
def writeAll : Octets → σ → Except String Unit × σ
  | [], sink => (.ok (), sink)
  | b :: bs, sink =>
    match accept sink (b :: bs) with
    | (.error cause, sink) => (.error cause, sink)
    | (.ok 0, sink) => (.error "failed to write whole buffer", sink)
    | (.ok (n + 1), sink) => writeAll (bs.drop n) sink
termination_by bytes => bytes.length
decreasing_by simp only [List.length_drop, List.length_cons]; omega

end Sink

namespace Image

variable {σ : Type} [Sink σ]

/-- The pieces in which a line is offered: the zeros that fill its digits up to four, one at a time,
then the digits, then the line feed. -/
def linePieces (w : Word) : List String :=
  let digits := Text.Hex.plain w.toNat
  List.replicate (4 - digits.length) "0" ++ [digits, "\n"]

def writePieces : List String → σ → Except String Unit × σ
  | [], sink => (.ok (), sink)
  | piece :: pieces, sink =>
    match Sink.writeAll (Octets.ofString piece) sink with
    | (.ok (), sink) => writePieces pieces sink
    | (.error cause, sink) => (.error cause, sink)

def writeLines (image : Image) (sink : σ) : Except String Unit × σ :=
  writePieces (image.savedWords.toList.flatMap linePieces) sink

/-- A sink that fails is not flushed. -/
def write (image : Image) (sink : σ) : Except ImageError Unit × σ :=
  match image.writeLines sink with
  | (.error cause, sink) => (.error (.writeFailed cause), sink)
  | (.ok (), sink) =>
    let (answer, sink) := Sink.flush sink
    (answer.mapError .writeFailed, sink)

end Image

/-- A device with room for `limit` octets. Of each offer it takes at most `portion + 1`. -/
structure BoundedDevice where
  limit : Nat
  portion : Octets → Nat
  failFlush : Bool
  held : Array UInt8 := #[]

namespace BoundedDevice

def accept (d : BoundedDevice) (bytes : Octets) : Except String Nat × BoundedDevice :=
  if bytes.isEmpty then (.ok 0, d)
  else
    match d.limit - d.held.size with
    | 0 => (.error "device full", d)
    | room =>
      let taken := bytes.take (min room (d.portion bytes + 1))
      (.ok taken.length, { d with held := d.held.appendList taken })

instance : Sink BoundedDevice where
  accept := accept
  flush d := (if d.failFlush then .error "flush failed" else .ok (), d)

end BoundedDevice

end WordMachine
