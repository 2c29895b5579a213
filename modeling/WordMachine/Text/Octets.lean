/-!
# Text as octets

Decoding of UTF-8. A sequence that no character has ends before the first octet that rules it out;
it is reported once, and reading goes on at that octet.
-/

namespace WordMachine

abbrev Octets := List UInt8

namespace Octets

/-- A character whose first octets were read: how many are owed, the bounds of the next one, and
the bits so far. -/
structure Unfinished where
  owed : Nat
  low : UInt8
  high : UInt8
  bits : Nat

inductive Lead
  | complete (c : Char)
  | start (u : Unfinished)
  | illFormed

/-- What a first octet says. Overlong forms, surrogates and values past the last code point are
kept out by the bounds of the second octet. -/
def lead (b : UInt8) : Lead :=
  if b < 0x80 then .complete (Char.ofNat b.toNat)
  else if b < 0xC2 then .illFormed
  else if b < 0xE0 then .start ⟨1, 0x80, 0xBF, b.toNat - 0xC0⟩
  else if b = 0xE0 then .start ⟨2, 0xA0, 0xBF, 0⟩
  else if b = 0xED then .start ⟨2, 0x80, 0x9F, 13⟩
  else if b < 0xF0 then .start ⟨2, 0x80, 0xBF, b.toNat - 0xE0⟩
  else if b = 0xF0 then .start ⟨3, 0x90, 0xBF, 0⟩
  else if b < 0xF4 then .start ⟨3, 0x80, 0xBF, b.toNat - 0xF0⟩
  else if b = 0xF4 then .start ⟨3, 0x80, 0x8F, 4⟩
  else .illFormed

/-- `done` holds what was read before, last first; `none` is an ill-formed sequence. -/
def decodeFrom : Octets → Option Unfinished → List (Option Char) → List (Option Char)
  | [], none, done => done.reverse
  | [], some _, done => (none :: done).reverse
  | b :: bs, none, done =>
    match lead b with
    | .complete c => decodeFrom bs none (some c :: done)
    | .start u => decodeFrom bs (some u) done
    | .illFormed => decodeFrom bs none (none :: done)
  | b :: bs, some u, done =>
    if u.low ≤ b ∧ b ≤ u.high then
      let bits := u.bits * 64 + b.toNat % 64
      if u.owed ≤ 1 then decodeFrom bs none (some (Char.ofNat bits) :: done)
      else decodeFrom bs (some ⟨u.owed - 1, 0x80, 0xBF, bits⟩) done
    else
      match lead b with
      | .complete c => decodeFrom bs none (some c :: none :: done)
      | .start v => decodeFrom bs (some v) (none :: done)
      | .illFormed => decodeFrom bs none (none :: none :: done)

def decode (bs : Octets) : List (Option Char) := decodeFrom bs none []

def text? (bs : Octets) : Option String :=
  let cs := decode bs
  if cs.all Option.isSome then some (String.ofList (cs.filterMap id)) else none

def lossyText (bs : Octets) : String := String.ofList ((decode bs).map (·.getD '\ufffd'))

def ofString (s : String) : Octets := s.toUTF8.toList

end Octets

end WordMachine
