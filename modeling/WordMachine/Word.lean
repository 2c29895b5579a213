/-!
# Words and their arithmetic

A word has sixteen bits. Addition carries out, a shift either drops or rotates the bits that leave
the word, and the distance of a shift is the number of ones in its operand.
-/

namespace WordMachine

abbrev Word := UInt16

namespace Word

theorem or_and (a b c : Word) : (a ||| b) &&& c = (a &&& c) ||| (b &&& c) := by
  apply UInt16.toNat_inj.1
  simp [Nat.and_or_distrib_right]

def onesBelow (n : Nat) : Nat → Nat
  | 0 => 0
  | k + 1 => onesBelow n k + (n >>> k) % 2

def population (w : Word) : Nat := onesBelow w.toNat 16

def overflowingAdd (a b : Word) : Word × Bool := (a + b, a.toBitVec.uaddOverflow b.toBitVec)

/-- The carry is added to the sum, and either addition may leave the word. -/
def addWithCarry (a b : Word) (carry : Bool) : Word × Bool :=
  let (low, first) := overflowingAdd a b
  let (sum, second) := overflowingAdd low (if carry then 1 else 0)
  (sum, first || second)

theorem overflowingAdd_exact (a b : Word) :
    (overflowingAdd a b).1.toNat + 65536 * (overflowingAdd a b).2.toNat = a.toNat + b.toNat := by
  have ha := a.toNat_lt
  have hb := b.toNat_lt
  have hover : a.toBitVec.uaddOverflow b.toBitVec = decide (65536 ≤ a.toNat + b.toNat) := rfl
  by_cases h : 65536 ≤ a.toNat + b.toNat
  · simp only [overflowingAdd, hover, UInt16.toNat_add, h, decide_true, Bool.toNat_true]
    omega
  · simp only [overflowingAdd, hover, UInt16.toNat_add, h, decide_false, Bool.toNat_false]
    omega

theorem addWithCarry_exact (a b : Word) (carry : Bool) :
    (addWithCarry a b carry).1.toNat + 65536 * (addWithCarry a b carry).2.toNat =
      a.toNat + b.toNat + carry.toNat := by
  have ha := a.toNat_lt
  have hb := b.toNat_lt
  have hc := carry.toNat_le
  have hcarry : (if carry then (1 : Word) else 0).toNat = carry.toNat := by cases carry <;> rfl
  have hlow := overflowingAdd_exact a b
  have hsum := overflowingAdd_exact (overflowingAdd a b).1 (if carry then 1 else 0)
  simp only [addWithCarry]
  rw [hcarry] at hsum
  generalize overflowingAdd a b = low at hlow hsum ⊢
  generalize overflowingAdd low.1 _ = sum at hsum ⊢
  -- a first sum that left the word is too small for the carry to leave it again
  have hor : (low.2 || sum.2).toNat = low.2.toNat + sum.2.toNat := by
    cases hfirst : low.2 with
    | false => simp
    | true =>
      cases hsecond : sum.2 with
      | false => rfl
      | true =>
        rw [hfirst, Bool.toNat_true] at hlow
        rw [hsecond, Bool.toNat_true] at hsum
        omega
  rw [hor]
  omega

def shiftCount (operand : Word) : Nat := population operand

def rotateLeft (w : Word) (count : Nat) : Word :=
  let k := count % 16
  UInt16.ofNat ((w.toNat <<< k) + (w.toNat >>> (16 - k)))

def rotateRight (w : Word) (count : Nat) : Word :=
  let k := count % 16
  UInt16.ofNat ((w.toNat >>> k) + (w.toNat <<< (16 - k)))

/-- Without rotation every bit is lost once the distance reaches the width. -/
def shiftLeft (w : Word) (count : Nat) (rotate : Bool) : Word :=
  if rotate then rotateLeft w count
  else if count < 16 then UInt16.ofNat (w.toNat <<< count) else 0

def shiftRight (w : Word) (count : Nat) (rotate : Bool) : Word :=
  if rotate then rotateRight w count
  else if count < 16 then UInt16.ofNat (w.toNat >>> count) else 0

/-- The mask of a conjunction: a direct operand has twelve bits and leaves the top four alone, an
operand fetched from memory takes part with all sixteen. -/
def andMask (operand : Word) (indirect : Bool) : Word :=
  if indirect then operand else 0xF000 ||| operand

def lowByte (w : Word) : UInt8 := UInt8.ofNat w.toNat

end Word

end WordMachine
