import WordMachine.Proofs.Word.Numeric

/-!
# Shifts one after the other

Shifts add up: as many of them as one likes, in one direction, move a word by all the ones of their
operands together. What is shifted out is lost. A rotation loses nothing, so rotations back by as
much restore the word.
-/

namespace WordMachine

namespace Rotation

variable {n i : Nat}

theorem getLsbD_left (x : BitVec 16) (hi : i < 16) :
    (x.rotateLeft n).getLsbD i = x.getLsbD ((i + (16 - n % 16)) % 16) := by
  rw [BitVec.getLsbD_rotateLeft]
  by_cases h : i < n % 16
  · have hplace : (i + (16 - n % 16)) % 16 = 16 - n % 16 + i := by omega
    simp only [h, decide_true, cond_true, hplace]
  · have hplace : (i + (16 - n % 16)) % 16 = i - n % 16 := by omega
    simp only [h, hi, decide_true, decide_false, cond_false, Bool.true_and, hplace]

theorem getLsbD_right (x : BitVec 16) (hi : i < 16) :
    (x.rotateRight n).getLsbD i = x.getLsbD ((i + n) % 16) := by
  rw [BitVec.getLsbD_rotateRight]
  by_cases h : i < 16 - n % 16
  · have hplace : (i + n) % 16 = n % 16 + i := by omega
    simp only [h, decide_true, cond_true, hplace]
  · have hplace : (i + n) % 16 = i - (16 - n % 16) := by omega
    simp only [h, hi, decide_true, decide_false, cond_false, Bool.true_and, hplace]

theorem left_zero (x : BitVec 16) : x.rotateLeft 0 = x := by
  apply BitVec.eq_of_getLsbD_eq
  intro i hi
  have hplace : (i + (16 - 0 % 16)) % 16 = i := by omega
  rw [getLsbD_left _ hi, hplace]

theorem right_zero (x : BitVec 16) : x.rotateRight 0 = x := by
  apply BitVec.eq_of_getLsbD_eq
  intro i hi
  rw [getLsbD_right _ hi, Nat.add_zero, Nat.mod_eq_of_lt hi]

theorem left_left (x : BitVec 16) (m n : Nat) :
    (x.rotateLeft m).rotateLeft n = x.rotateLeft (m + n) := by
  apply BitVec.eq_of_getLsbD_eq
  intro i hi
  have hplace : ((i + (16 - n % 16)) % 16 + (16 - m % 16)) % 16 =
      (i + (16 - (m + n) % 16)) % 16 := by omega
  rw [getLsbD_left _ hi, getLsbD_left _ (Nat.mod_lt _ (by decide)), getLsbD_left _ hi, hplace]

theorem right_right (x : BitVec 16) (m n : Nat) :
    (x.rotateRight m).rotateRight n = x.rotateRight (m + n) := by
  apply BitVec.eq_of_getLsbD_eq
  intro i hi
  have hplace : ((i + n) % 16 + m) % 16 = (i + (m + n)) % 16 := by omega
  rw [getLsbD_right _ hi, getLsbD_right _ (Nat.mod_lt _ (by decide)), getLsbD_right _ hi, hplace]

theorem right_left (x : BitVec 16) (n : Nat) : (x.rotateLeft n).rotateRight n = x := by
  apply BitVec.eq_of_getLsbD_eq
  intro i hi
  have hplace : ((i + n) % 16 + (16 - n % 16)) % 16 = i := by omega
  rw [getLsbD_right _ hi, getLsbD_left _ (Nat.mod_lt _ (by decide)), hplace]

end Rotation

namespace Word

open Numeric (ones)

def shiftAll (shift : Word → Nat → Bool → Word) (rotate : Bool) (w : Word)
    (operands : List Word) : Word :=
  operands.foldl (fun v operand => shift v (shiftCount operand) rotate) w

def distance (operands : List Word) : Nat := (operands.map fun operand => ones operand.toNat).sum

theorem distance_cons (operand : Word) (operands : List Word) :
    distance (operand :: operands) = ones operand.toNat + distance operands := by
  rw [distance, List.map_cons, List.sum_cons, distance]

theorem toBitVec_rotateLeft (w : Word) (count : Nat) :
    (rotateLeft w count).toBitVec = w.toBitVec.rotateLeft count := by
  apply BitVec.eq_of_toNat_eq
  have hdisjoint := Numeric.shiftLeft_or_shiftRight w.toNat_lt (k := count % 16) (by omega)
  rw [UInt16.toNat_toBitVec, Numeric.toNat_rotateLeft, BitVec.toNat_rotateLeft, Numeric.rotateLeft,
    ← hdisjoint, Nat.shiftLeft_eq, Nat.shiftRight_eq_div_pow]
  rfl

theorem toBitVec_rotateRight (w : Word) (count : Nat) :
    (rotateRight w count).toBitVec = w.toBitVec.rotateRight count := by
  apply BitVec.eq_of_toNat_eq
  have hdisjoint := Numeric.shiftLeft_or_shiftRight w.toNat_lt (k := 16 - count % 16) (by omega)
  have hplace : 16 - (16 - count % 16) = count % 16 := by omega
  rw [hplace, Nat.or_comm, Nat.add_comm] at hdisjoint
  rw [UInt16.toNat_toBitVec, Numeric.toNat_rotateRight, BitVec.toNat_rotateRight,
    Numeric.rotateRight, ← hdisjoint, Nat.shiftLeft_eq, Nat.shiftRight_eq_div_pow]
  rfl

/-- What one shift does to the word, seen in some way, all of them do together if it adds up. -/
theorem view_shiftAll {α : Type} {shift : Word → Nat → Bool → Word} {rotate : Bool}
    {view : Word → α} (moved : α → Nat → α) (hzero : ∀ w, moved (view w) 0 = view w)
    (hadd : ∀ w m n, moved (moved (view w) m) n = moved (view w) (m + n))
    (hshift : ∀ w n, view (shift w n rotate) = moved (view w) n) (w : Word)
    (operands : List Word) :
    view (shiftAll shift rotate w operands) = moved (view w) (distance operands) := by
  induction operands generalizing w with
  | nil => exact (hzero w).symm
  | cons operand operands ih =>
    have hcount : shiftCount operand = ones operand.toNat := Numeric.population_eq operand
    calc view (shiftAll shift rotate w (operand :: operands))
        = view (shiftAll shift rotate (shift w (shiftCount operand) rotate) operands) := rfl
      _ = moved (moved (view w) (ones operand.toNat)) (distance operands) := by
        rw [ih, hshift, hcount]
      _ = moved (view w) (distance (operand :: operands)) := by
        rw [hadd, distance_cons]

theorem toNat_shiftLeft (w : Word) (count : Nat) :
    (shiftLeft w count false).toNat = w.toNat * 2 ^ count % 65536 := by
  rw [Numeric.toNat_shiftLeft]
  rfl

theorem toNat_shiftRight (w : Word) (count : Nat) :
    (shiftRight w count false).toNat = w.toNat / 2 ^ count := by
  rw [Numeric.toNat_shiftRight]
  rfl

theorem toNat_shiftAll_left (w : Word) (operands : List Word) :
    (shiftAll shiftLeft false w operands).toNat = w.toNat * 2 ^ distance operands % 65536 := by
  apply view_shiftAll fun n count => n * 2 ^ count % 65536
  · intro w
    have hw := w.toNat_lt
    rw [Nat.pow_zero, Nat.mul_one, Nat.mod_eq_of_lt hw]
  · intro w m n
    rw [Nat.mod_mul_mod, Nat.mul_assoc, ← Nat.pow_add]
  · exact fun w n => toNat_shiftLeft w n

theorem toNat_shiftAll_right (w : Word) (operands : List Word) :
    (shiftAll shiftRight false w operands).toNat = w.toNat / 2 ^ distance operands := by
  apply view_shiftAll fun n count => n / 2 ^ count
  · intro w
    rw [Nat.pow_zero, Nat.div_one]
  · intro w m n
    rw [Nat.div_div_eq_div_mul, ← Nat.pow_add]
  · exact fun w n => toNat_shiftRight w n

theorem toBitVec_shiftAll_left (w : Word) (operands : List Word) :
    (shiftAll shiftLeft true w operands).toBitVec = w.toBitVec.rotateLeft (distance operands) :=
  view_shiftAll BitVec.rotateLeft (fun w => Rotation.left_zero w.toBitVec)
    (fun w => Rotation.left_left w.toBitVec) toBitVec_rotateLeft w operands

theorem toBitVec_shiftAll_right (w : Word) (operands : List Word) :
    (shiftAll shiftRight true w operands).toBitVec = w.toBitVec.rotateRight (distance operands) :=
  view_shiftAll BitVec.rotateRight (fun w => Rotation.right_zero w.toBitVec)
    (fun w => Rotation.right_right w.toBitVec) toBitVec_rotateRight w operands

/-- Shifts one after the other are one shift by all the ones of their operands, and rotations are
one rotation; rotations to the right undo rotations to the left that go as far. The laws of a single
shift hold for every count, sixteen and beyond included. -/
theorem shifts_compose (w : Word) (operands : List Word) :
    (shiftAll shiftLeft false w operands).toNat = w.toNat * 2 ^ distance operands % 65536 ∧
    (shiftAll shiftRight false w operands).toNat = w.toNat / 2 ^ distance operands ∧
    (shiftAll shiftLeft true w operands).toBitVec =
      w.toBitVec.rotateLeft (distance operands % 16) ∧
    (shiftAll shiftRight true w operands).toBitVec =
      w.toBitVec.rotateRight (distance operands % 16) ∧
    (∀ back, distance back = distance operands →
      shiftAll shiftRight true (shiftAll shiftLeft true w operands) back = w) ∧
    ∀ count,
      (shiftLeft w count false).toNat = w.toNat * 2 ^ count % 65536 ∧
      (shiftRight w count false).toNat = w.toNat / 2 ^ count ∧
      (shiftLeft w count true).toBitVec = w.toBitVec.rotateLeft (count % 16) ∧
      (shiftRight w count true).toBitVec = w.toBitVec.rotateRight (count % 16) := by
  refine ⟨toNat_shiftAll_left w operands, toNat_shiftAll_right w operands, ?_, ?_, ?_, ?_⟩
  · rw [BitVec.rotateLeft_mod_eq_rotateLeft, toBitVec_shiftAll_left]
  · rw [BitVec.rotateRight_mod_eq_rotateRight, toBitVec_shiftAll_right]
  · intro back hback
    apply UInt16.toBitVec_inj.mp
    rw [toBitVec_shiftAll_right, toBitVec_shiftAll_left, hback, Rotation.right_left]
  · intro count
    rw [BitVec.rotateLeft_mod_eq_rotateLeft, BitVec.rotateRight_mod_eq_rotateRight]
    exact ⟨toNat_shiftLeft w count, toNat_shiftRight w count, toBitVec_rotateLeft w count,
      toBitVec_rotateRight w count⟩

theorem shifts_compose_round :
    distance [0xFFF, 0xF, 0x1] = 17 ∧ distance [0xFFFF, 0x800] = distance [0xFFF, 0xF, 0x1] ∧
    shiftAll shiftLeft true 0x8001 [0xFFF, 0xF, 0x1] = 0x0003 ∧
    shiftAll shiftRight true (shiftAll shiftLeft true 0x8001 [0xFFF, 0xF, 0x1])
      [0xFFFF, 0x800] = 0x8001 := by
  have hback : distance [0xFFFF, 0x800] = distance [0xFFF, 0xF, 0x1] := by decide
  exact ⟨by decide, hback, by decide,
    (shifts_compose 0x8001 [0xFFF, 0xF, 0x1]).2.2.2.2.1 [0xFFFF, 0x800] hback⟩

end Word

end WordMachine
