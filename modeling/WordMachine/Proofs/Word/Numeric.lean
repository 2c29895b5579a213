import Mathlib.Algebra.BigOperators.Intervals
import Mathlib.Data.Nat.Bitwise
import Mathlib.Tactic.Ring
import WordMachine.Flag
import WordMachine.Port

/-!
# Words as numbers

Counterparts on natural numbers of the operations on words, written with quotients, remainders and
powers of two instead of masks and shifts. Each law gives the number of the word that an operation
answers.
-/

namespace WordMachine.Numeric

def bit (i n : Nat) : Nat := n / 2 ^ i % 2

/-- `n` with `b` in the place of its bit `i`. -/
def putBit (i b n : Nat) : Nat := n / 2 ^ (i + 1) * 2 ^ (i + 1) + b * 2 ^ i + n % 2 ^ i

def ones (n : Nat) : Nat := ∑ i ∈ Finset.range 16, bit i n

/-- Bits 1 to 3 are those of the accumulator: it is zero, it is negative, its ones are even. -/
def status (flags acc : Nat) : Nat :=
  putBit 3 (1 - ones acc % 2) (putBit 2 (bit 15 acc) (putBit 1 (if acc = 0 then 1 else 0) flags))

def shiftLeft (n count : Nat) : Nat := n * 2 ^ count % 65536

def shiftRight (n count : Nat) : Nat := n / 2 ^ count

def rotateLeft (n count : Nat) : Nat := shiftLeft n (count % 16) + shiftRight n (16 - count % 16)

def rotateRight (n count : Nat) : Nat := shiftRight n (count % 16) + shiftLeft n (16 - count % 16)

/-- Only an operand that was fetched through a pointer masks the top four bits. -/
def andMask (lop : Nat) (indirect : Bool) : Nat := if indirect then lop else 0xF000 ||| lop

theorem bit_eq_toNat_testBit (i n : Nat) : bit i n = (n.testBit i).toNat := by
  rw [bit, Nat.testBit_eq_decide_div_mod_eq]
  rcases Nat.mod_two_eq_zero_or_one (n / 2 ^ i) with h | h <;> simp [h]

theorem testBit_putBit (i j n : Nat) (b : Bool) :
    (putBit i b.toNat n).testBit j = if j = i then b else n.testBit j := by
  have split : putBit i b.toNat n = 2 ^ i * (2 ^ 1 * (n / 2 ^ (i + 1)) + b.toNat) + n % 2 ^ i := by
    rw [putBit, Nat.pow_succ]
    ring
  have high : b.toNat < 2 ^ 1 := b.toNat_lt
  rw [split, Nat.testBit_two_pow_mul_add _ (Nat.mod_lt _ (Nat.two_pow_pos i))]
  rcases Nat.lt_trichotomy j i with h | h | h
  · rw [if_pos h, if_neg h.ne, Nat.testBit_mod_two_pow]
    simp [h]
  · subst h
    rw [if_neg (lt_irrefl j), if_pos rfl, Nat.testBit_two_pow_mul_add _ high]
    cases b <;> simp
  · rw [if_neg (by omega), if_neg (by omega), Nat.testBit_two_pow_mul_add _ high,
      if_neg (by omega), Nat.testBit_div_two_pow]
    congr 1
    omega

theorem lt_of_testBit {w : Word} {i : Nat} (h : w.toNat.testBit i = true) : i < 16 := by
  by_contra hi
  have hw : w.toNat < 2 ^ i := w.toNat_lt.trans_le (Nat.pow_le_pow_right (by decide) (by omega))
  simp [Nat.testBit_lt_two_pow hw] at h

theorem testBit_toNat_not (w : Word) (i : Nat) :
    (~~~w).toNat.testBit i = (decide (i < 16) && !w.toNat.testBit i) := by
  have hw := w.toNat_lt
  have complement : UInt16.size - 1 - w.toNat = 2 ^ 16 - (w.toNat + 1) := by
    simp only [UInt16.size]
    omega
  rw [UInt16.toNat_not, complement, Nat.testBit_two_pow_sub_succ hw]

theorem and_ne_zero_eq {mask : Word} {i : Nat} (h : mask.toNat = 2 ^ i) (w : Word) :
    (w &&& mask != 0) = decide (bit i w.toNat = 1) := by
  have hz : w &&& mask = 0 ↔ bit i w.toNat = 0 := by
    rw [← UInt16.toNat_inj, UInt16.toNat_and, h, Nat.and_two_pow, bit_eq_toNat_testBit]
    simp
  have hb : bit i w.toNat < 2 := Nat.mod_lt _ (by decide)
  by_cases h0 : w &&& mask = 0
  · simp [h0, hz.1 h0]
  · have hne := mt hz.2 h0
    have h1 : bit i w.toNat = 1 := by omega
    simp [h0, h1]

def place : Flag → Nat
  | .carry => 0
  | .zero => 1
  | .negative => 2
  | .parity => 3
  | .rotate => 4
  | .reset => 5
  | .indirect => 6
  | .halt => 7

theorem toNat_mask (f : Flag) : f.mask.toNat = 2 ^ place f := by cases f <;> rfl

theorem isSet_eq (f : Flag) (w : Word) : f.isSet w = decide (bit (place f) w.toNat = 1) :=
  and_ne_zero_eq (toNat_mask f) w

theorem toNat_isSet (f : Flag) (w : Word) : (f.isSet w).toNat = bit (place f) w.toNat := by
  have hlt : bit (place f) w.toNat < 2 := Nat.mod_lt _ (by decide)
  rw [isSet_eq]
  by_cases h : bit (place f) w.toNat = 1
  · simp [h]
  · simp only [h, decide_false, Bool.toNat_false]
    omega

theorem toNat_put (f : Flag) (on : Bool) (w : Word) :
    (f.put on w).toNat = putBit (place f) on.toNat w.toNat := by
  apply Nat.eq_of_testBit_eq
  intro j
  have hj := lt_of_testBit (w := w) (i := j)
  rw [testBit_putBit]
  cases on with
  | true =>
    simp only [Flag.put, Flag.write, if_true, UInt16.toNat_or, Nat.testBit_or, toNat_mask,
      Nat.testBit_two_pow]
    grind
  | false =>
    simp only [Flag.put, Flag.write, Bool.false_eq_true, if_false, UInt16.toNat_and,
      Nat.testBit_and, testBit_toNat_not, toNat_mask, Nat.testBit_two_pow]
    grind

theorem isSet_put_self (f : Flag) (on : Bool) (w : Word) : f.isSet (f.put on w) = on := by
  rw [isSet_eq, toNat_put, bit_eq_toNat_testBit, testBit_putBit, if_pos rfl]
  cases on <;> rfl

theorem isSet_put_of_ne {f g : Flag} (h : f ≠ g) (on : Bool) (w : Word) :
    f.isSet (g.put on w) = f.isSet w := by
  have hplace : place f ≠ place g := by
    revert h
    cases f <;> cases g <;> decide
  rw [isSet_eq, isSet_eq, toNat_put, bit_eq_toNat_testBit, bit_eq_toNat_testBit, testBit_putBit,
    if_neg hplace]

theorem derive_eq_put (flags acc : Word) :
    Flag.derive flags acc =
      Flag.parity.put (acc.population % 2 = 0)
        (Flag.negative.put (0x8000 ≤ acc) (Flag.zero.put (acc = 0) flags)) := by
  have mask : Flag.statusMask = Flag.zero.mask ||| Flag.negative.mask ||| Flag.parity.mask := by
    decide
  have bits (z n p : Bool) :
      (flags &&& ~~~Flag.statusMask) |||
        ((if z then Flag.zero.mask else 0) ||| (if n then Flag.negative.mask else 0) |||
          (if p then Flag.parity.mask else 0)) =
      Flag.parity.put p (Flag.negative.put n (Flag.zero.put z flags)) := by
    apply UInt16.toNat_inj.1
    apply Nat.eq_of_testBit_eq
    intro j
    have hj := lt_of_testBit (w := flags) (i := j)
    simp only [toNat_put, testBit_putBit, UInt16.toNat_or, UInt16.toNat_and, Nat.testBit_or,
      Nat.testBit_and, testBit_toNat_not, mask, toNat_mask, Nat.testBit_two_pow, place]
    cases z <;> cases n <;> cases p <;>
      simp only [toNat_mask, place, Nat.testBit_two_pow, if_true, Bool.false_eq_true, if_false,
        UInt16.toNat_zero, Nat.zero_testBit] <;>
      grind
  simpa only [Flag.derive, Flag.status, decide_eq_true_eq] using
    bits (acc = 0) (0x8000 ≤ acc) (acc.population % 2 = 0)

theorem population_eq (w : Word) : w.population = ones w.toNat := by
  have below : ∀ n k, Word.onesBelow n k = ∑ i ∈ Finset.range k, bit i n := by
    intro n k
    induction k with
    | zero => rfl
    | succ k ih => rw [Word.onesBelow, ih, Finset.sum_range_succ, bit, Nat.shiftRight_eq_div_pow]
  exact below _ _

theorem toNat_derive (flags acc : Word) :
    (Flag.derive flags acc).toNat = status flags.toNat acc.toNat := by
  have hp : (decide (acc.population % 2 = 0)).toNat = 1 - ones acc.toNat % 2 := by
    rw [population_eq]
    rcases Nat.mod_two_eq_zero_or_one (ones acc.toNat) with h | h <;> simp [h]
  have hn : (decide (0x8000 ≤ acc)).toNat = bit 15 acc.toNat := by
    have hlt := acc.toNat_lt
    have hle : 0x8000 ≤ acc ↔ 32768 ≤ acc.toNat := Iff.rfl
    by_cases h : 32768 ≤ acc.toNat
    · simp only [hle, h, decide_true, Bool.toNat_true, bit]
      omega
    · simp only [hle, h, decide_false, Bool.toNat_false, bit]
      omega
  have hz : (decide (acc = 0)).toNat = if acc.toNat = 0 then 1 else 0 := by
    by_cases h : acc = 0
    · simp [h]
    · have h' : acc.toNat ≠ 0 := fun e => h (UInt16.toNat_inj.1 e)
      simp [h, h']
  rw [derive_eq_put, toNat_put, toNat_put, toNat_put, hp, hn, hz]
  rfl

theorem toNat_add_one_wrap (s : MemorySize) (w : Word) :
    (s.wrap (w + 1)).toNat = (w.toNat + 1) % s.words := by
  obtain ⟨k, hk⟩ := s.isPowerOfTwo
  have hle : 2 ^ k ≤ 2 ^ 16 := hk ▸ s.words_le
  have hdvd : s.words ∣ 2 ^ 16 := by
    rw [hk]
    exact Nat.pow_dvd_pow 2 ((Nat.pow_le_pow_iff_right (by decide)).1 hle)
  rw [MemorySize.toNat_wrap, UInt16.toNat_add]
  exact Nat.mod_mod_of_dvd _ hdvd

theorem toNat_addWithCarry (a b : Word) (carry : Bool) :
    (Word.addWithCarry a b carry).1.toNat = (a.toNat + b.toNat + carry.toNat) % 65536 := by
  have h := Word.addWithCarry_exact a b carry
  have hs := (Word.addWithCarry a b carry).1.toNat_lt
  omega

theorem carry_addWithCarry (a b : Word) (carry : Bool) :
    (Word.addWithCarry a b carry).2.toNat = (a.toNat + b.toNat + carry.toNat) / 65536 := by
  have h := Word.addWithCarry_exact a b carry
  have hs := (Word.addWithCarry a b carry).1.toNat_lt
  omega

theorem shiftLeft_eq_mul {n k : Nat} (hk : k ≤ 16) :
    shiftLeft n k = 2 ^ k * (n % 2 ^ (16 - k)) := by
  have split : 2 ^ k * 2 ^ (16 - k) = 65536 := by
    rw [← Nat.pow_add, Nat.add_sub_of_le hk]
  rw [shiftLeft, ← split, Nat.mul_comm n, Nat.mul_mod_mul_left]

theorem shiftRight_lt {n k : Nat} (hn : n < 65536) (hk : k ≤ 16) :
    shiftRight n (16 - k) < 2 ^ k := by
  have split : 2 ^ (16 - k) * 2 ^ k = 65536 := by
    rw [← Nat.pow_add, Nat.sub_add_cancel hk]
  exact Nat.div_lt_of_lt_mul (by rw [split]; exact hn)

theorem shiftLeft_add_shiftRight_lt {n k : Nat} (hn : n < 65536) (hk : k ≤ 16) :
    shiftLeft n k + shiftRight n (16 - k) < 65536 := by
  have split : 2 ^ k * 2 ^ (16 - k) = 65536 := by
    rw [← Nat.pow_add, Nat.add_sub_of_le hk]
  have hhigh := shiftRight_lt hn hk
  have hmod : n % 2 ^ (16 - k) + 1 ≤ 2 ^ (16 - k) := Nat.mod_lt _ (Nat.two_pow_pos _)
  have hmul := Nat.mul_le_mul_left (2 ^ k) hmod
  rw [Nat.mul_add, Nat.mul_one, split] at hmul
  rw [shiftLeft_eq_mul hk]
  omega

theorem shiftLeft_or_shiftRight {n k : Nat} (hn : n < 65536) (hk : k ≤ 16) :
    shiftLeft n k ||| shiftRight n (16 - k) = shiftLeft n k + shiftRight n (16 - k) := by
  rw [shiftLeft_eq_mul hk, Nat.two_pow_add_eq_or_of_lt (shiftRight_lt hn hk)]

theorem toNat_rotateLeft (w : Word) (count : Nat) :
    (Word.rotateLeft w count).toNat = rotateLeft w.toNat count := by
  have hlt := shiftLeft_add_shiftRight_lt w.toNat_lt (k := count % 16) (by omega)
  rw [Word.rotateLeft, UInt16.toNat_ofNat', Nat.shiftLeft_eq, Nat.shiftRight_eq_div_pow, rotateLeft]
  simp only [shiftLeft, shiftRight] at hlt ⊢
  rw [← Nat.mod_eq_of_lt hlt]
  omega

theorem toNat_rotateRight (w : Word) (count : Nat) :
    (Word.rotateRight w count).toNat = rotateRight w.toNat count := by
  have hlt := shiftLeft_add_shiftRight_lt w.toNat_lt (k := 16 - count % 16) (by omega)
  have hk : 16 - (16 - count % 16) = count % 16 := by omega
  rw [hk, Nat.add_comm] at hlt
  rw [Word.rotateRight, UInt16.toNat_ofNat', Nat.shiftLeft_eq, Nat.shiftRight_eq_div_pow,
    rotateRight]
  simp only [shiftLeft, shiftRight] at hlt ⊢
  rw [← Nat.mod_eq_of_lt hlt]
  omega

theorem toNat_shiftLeft (w : Word) (count : Nat) (rotate : Bool) :
    (Word.shiftLeft w count rotate).toNat =
      if rotate then rotateLeft w.toNat count else shiftLeft w.toNat count := by
  cases rotate with
  | true => exact toNat_rotateLeft w count
  | false =>
    by_cases h : count < 16
    · simp [Word.shiftLeft, shiftLeft, h, Nat.shiftLeft_eq]
    · have hdvd : 65536 ∣ w.toNat * 2 ^ count :=
        Dvd.dvd.mul_left (Nat.pow_dvd_pow 2 (show 16 ≤ count by omega)) _
      simp [Word.shiftLeft, shiftLeft, h, Nat.mod_eq_zero_of_dvd hdvd]

theorem toNat_shiftRight (w : Word) (count : Nat) (rotate : Bool) :
    (Word.shiftRight w count rotate).toNat =
      if rotate then rotateRight w.toNat count else shiftRight w.toNat count := by
  have hw := w.toNat_lt
  cases rotate with
  | true => exact toNat_rotateRight w count
  | false =>
    by_cases h : count < 16
    · have hlt : w.toNat / 2 ^ count < 65536 := (Nat.div_le_self _ _).trans_lt hw
      simp [Word.shiftRight, shiftRight, h, Nat.shiftRight_eq_div_pow, Nat.mod_eq_of_lt hlt]
    · have hlt : w.toNat < 2 ^ count :=
        hw.trans_le (Nat.pow_le_pow_right (by decide) (by omega))
      simp [Word.shiftRight, shiftRight, h, Nat.div_eq_of_lt hlt]

theorem toNat_andMask (operand : Word) (indirect : Bool) :
    (Word.andMask operand indirect).toNat = andMask operand.toNat indirect := by
  cases indirect with
  | true => rfl
  | false => simp [Word.andMask, andMask]

theorem selectsPort_eq (operand : Word) : selectsPort operand = decide (bit 11 operand.toNat = 1) :=
  and_ne_zero_eq rfl operand

theorem translate_eq {operand : Word} (h : operand.toNat < 4096) (size : MemorySize) :
    Address.translate operand size =
      if bit 11 operand.toNat = 1 then .port (Port.select operand.toNat)
      else .memory (size.wrap operand) := by
  have low : (operand &&& operandMask &&& ~~~ioSelect).toNat = operand.toNat % 2 ^ 11 := by
    rw [UInt16.and_assoc, UInt16.toNat_and]
    exact Nat.and_two_pow_sub_one_eq_mod operand.toNat 11
  have io (v : Word) : v &&& Address.ioBit = 0 ↔ ¬ bit 15 v.toNat = 1 := by
    have hmask : Address.ioBit.toNat = 2 ^ 15 := rfl
    have hv := and_ne_zero_eq hmask v
    grind
  rw [Address.translate, Address.virtual, selectsPort_eq]
  by_cases hs : bit 11 operand.toNat = 1
  · have high : (operand &&& operandMask &&& ~~~ioSelect ||| Address.ioBit).toNat =
        2 ^ 15 + operand.toNat % 2 ^ 11 := by
      rw [UInt16.toNat_or, low, Nat.or_comm]
      have hlt : operand.toNat % 2 ^ 11 < 2 ^ 15 := by omega
      exact (Nat.two_pow_add_eq_or_of_lt hlt 1).symm
    have hbit : bit 15 (2 ^ 15 + operand.toNat % 2 ^ 11) = 1 := by
      rw [bit]
      omega
    simp only [hs, decide_true, if_true, io, high, hbit, not_true, if_false]
    congr 1
    simp only [Port.select]
    have hmod : (2 ^ 15 + operand.toNat % 2 ^ 11) % 8 = operand.toNat % 8 := by omega
    rw [hmod]
  · have hlt : operand.toNat < 2 ^ 11 := by
      rw [bit] at hs
      omega
    have same : operand &&& operandMask &&& ~~~ioSelect = operand := by
      apply UInt16.toNat_inj.1
      rw [low, Nat.mod_eq_of_lt hlt]
    have hbit : ¬ bit 15 operand.toNat = 1 := by
      rw [bit]
      omega
    simp only [hs, decide_false, Bool.false_eq_true, if_false, same, io, hbit, not_false_eq_true,
      if_true]

end WordMachine.Numeric
