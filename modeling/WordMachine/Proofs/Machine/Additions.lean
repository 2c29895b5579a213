import Mathlib.Algebra.BigOperators.Fin
import Mathlib.Tactic.Ring
import WordMachine.Proofs.Machine.Course
import WordMachine.Proofs.Machine.Histories
import WordMachine.Proofs.Word.Numeric

/-!
# Chained additions

An addition takes the carry flag in and leaves its own carry in it, and no other instruction touches
the flag but one that sets the flags as a whole. So the additions of a course, the lowest word
first, are one addition of long numbers, whatever else is executed between them.
-/

namespace WordMachine

variable {κ : Type} [Console κ]

def Pending.carry (p : Pending) : Bool := Flag.carry.isSet p.flags

theorem Execution.carry_ofPortWrite (bank : PortBank) (port : Port) (value : Word) (p : Pending)
    (console : κ) : (ofPortWrite bank port value p console).pending.carry = p.carry := by
  cases hanswer : (bank.write port value console).answer with
  | error cause => rw [ofPortWrite_of_error hanswer]
  | ok answer =>
    rw [ofPortWrite_of_ok hanswer]
    split
    · exact Numeric.isSet_put_of_ne (by decide) _ _
    · rfl

namespace Machine

def carry (m : Machine) : Bool := Flag.carry.isSet m.registers.flags

theorem carry_deriveStatus (m : Machine) : m.deriveStatus.carry = m.carry :=
  Flag.isSet_derive (by decide) _ _

theorem carry_execute (m : Machine) {i : Instruction} (hadd : i.opcode ≠ .add)
    (hflags : ¬(i.opcode = .set ∧ i.systemTarget = .flags)) (console : κ) :
    (m.execute i console).pending.carry = m.carry := by
  cases op : i.opcode
  case add => exact absurd op hadd
  case loadDirect =>
    simp only [execute, op]
    split <;> rfl
  case storeDirect =>
    simp only [execute, op]
    split
    · rfl
    · exact Execution.carry_ofPortWrite _ _ _ _ _
  case set =>
    simp only [execute, op]
    split
    · exact Execution.carry_ofPortWrite _ _ _ _ _
    · rename_i htarget
      exact absurd ⟨op, htarget⟩ hflags
    · rfl
  case get =>
    simp only [execute, op]
    split <;> rfl
  case jumpz =>
    simp only [execute, op]
    split <;> rfl
  all_goals
    simp only [execute, op]
    rfl

theorem execute_add (m : Machine) {i : Instruction} (hadd : i.opcode = .add) (console : κ) :
    (m.execute i console).fault = none ∧
      (m.execute i console).pending.acc.toNat + 65536 * (m.execute i console).pending.carry.toNat =
        m.registers.acc.toNat + (m.effectiveOperand i).toNat + m.carry.toNat := by
  have hexact := Word.addWithCarry_exact m.registers.acc (m.effectiveOperand i) m.carry
  simp only [execute, hadd, Pending.carry, Numeric.isSet_put_self, true_and]
  exact hexact

theorem effectiveOperand_deriveStatus (m : Machine) (i : Instruction) :
    m.deriveStatus.effectiveOperand i = m.effectiveOperand i := by
  have hindirect : Flag.indirect.isSet m.deriveStatus.registers.flags =
      Flag.indirect.isSet m.registers.flags := Flag.isSet_derive (by decide) _ _
  rw [effectiveOperand, hindirect]
  rfl

end Machine

structure Addition where
  acc : Word
  operand : Word
  sum : Word
  deriving DecidableEq

namespace Setting

def addition? (s : Setting κ) : Option Addition :=
  if s.machine.executes ∧ s.machine.current.opcode = .add then
    some ⟨s.machine.registers.acc, s.machine.effectiveOperand s.machine.current,
      s.next.machine.registers.acc⟩
  else none

def additions (s : Setting κ) (n : Nat) : List Addition := (s.course n).filterMap addition?

/-- The cycle gives the flags a new value as a whole: it sets them, or it is a reset cycle. -/
def ReplacesFlags (s : Setting κ) : Prop :=
  s.machine.executes ∧ s.machine.current.opcode = .set ∧
      s.machine.current.systemTarget = .flags ∨
    .event (.reset s.machine.registers.pc) ∈ s.cycle.notices

instance (s : Setting κ) : Decidable s.ReplacesFlags := inferInstanceAs (Decidable (_ ∨ _))

theorem addition?_eq_none {s : Setting κ} (h : s.machine.executes = false) :
    s.addition? = none :=
  if_neg (by simp [h])

/-- An addition is exact over both words and the carry; the other cycles keep the carry. -/
theorem carry_next {s : Setting κ} (hkept : ¬s.ReplacesFlags) :
    match s.addition? with
    | some a => a.sum.toNat + 65536 * s.next.machine.carry.toNat =
        a.acc.toNat + a.operand.toNat + s.machine.carry.toNat
    | none => s.next.machine.carry = s.machine.carry := by
  obtain ⟨m, console⟩ := s
  have hturn := Machine.turns_step m console
  generalize hcycle : m.step console = c at hturn
  cases hturn with
  | latched hlatched =>
    have hidle : m.executes = false := by
      rw [Bool.eq_false_iff, Ne, Machine.executes_eq_true_iff]
      exact fun hexec => hexec.1 _ hlatched
    rw [addition?_eq_none hidle]
    simp only [next, cycle, hcycle]
  | halted hlive hhalt =>
    have hidle : m.executes = false := by
      rw [Bool.eq_false_iff, Ne, Machine.executes_eq_true_iff, hhalt]
      simp
    rw [addition?_eq_none hidle]
    simp only [next, cycle, hcycle]
    exact m.carry_deriveStatus
  | reset hlive hhalt hreset =>
    exact absurd (.inr (by simp [cycle, hcycle])) hkept
  | retired hexec hfault =>
    have hnext : (Setting.next ⟨m, console⟩).machine.registers =
        ⟨(m.execution console).pending.nextPc, (m.execution console).pending.acc,
          (m.execution console).pending.flags⟩ := by
      simp only [next, cycle, hcycle, Machine.registers_commit]
    have hcarry : (Setting.next ⟨m, console⟩).machine.carry =
        (m.execution console).pending.carry := by
      rw [Machine.carry, hnext]
      rfl
    by_cases hadd : m.current.opcode = .add
    · obtain ⟨-, hexact⟩ := m.deriveStatus.execute_add hadd console
      rw [Machine.effectiveOperand_deriveStatus, m.carry_deriveStatus] at hexact
      rw [addition?, if_pos ⟨hexec, hadd⟩]
      simp only [hcarry, hnext]
      exact hexact
    · rw [addition?, if_neg fun h => hadd h.2]
      have hflags : ¬(m.current.opcode = .set ∧ m.current.systemTarget = .flags) :=
        fun h => hkept (.inl ⟨hexec, h⟩)
      exact hcarry.trans ((m.deriveStatus.carry_execute hadd hflags console).trans
        m.carry_deriveStatus)
  | failed hexec hfault =>
    have hadd : m.current.opcode ≠ .add := by
      intro hadd
      rw [Machine.execution, (m.deriveStatus.execute_add hadd console).1] at hfault
      contradiction
    rw [addition?, if_neg fun h => hadd h.2]
    simp only [next, cycle, hcycle]
    exact m.carry_deriveStatus

end Setting

/-- The number with these digits to the base 65536, the lowest first. A digit may exceed the base. -/
def Numeric.long (digits : List Nat) : Nat :=
  ∑ i : Fin digits.length, digits[i] * 2 ^ (16 * i.val)

theorem Numeric.long_cons (digit : Nat) (digits : List Nat) :
    long (digit :: digits) = digit + 65536 * long digits := by
  have hhigh (i : Fin digits.length) :
      (digit :: digits)[i.succ] * 2 ^ (16 * i.succ.val) =
        65536 * (digits[i] * 2 ^ (16 * i.val)) := by
    simp only [Fin.getElem_fin, Fin.val_succ, List.getElem_cons_succ]
    ring
  have hsum : long (digit :: digits) = (digit :: digits)[(0 : Fin (digits.length + 1))] * 2 ^ 0 +
      ∑ i : Fin digits.length, (digit :: digits)[i.succ] * 2 ^ (16 * i.succ.val) :=
    Fin.sum_univ_succ _
  rw [hsum, Finset.sum_congr rfl fun i _ => hhigh i, ← Finset.mul_sum, long]
  simp

/-- The sums, with the last carry above them, are what the accumulators and the operands are
together, with the first carry. -/
def Chained (adds : List Addition) (carry carry' : Bool) : Prop :=
  Numeric.long (adds.map fun a => a.sum.toNat) + carry'.toNat * 2 ^ (16 * adds.length) =
    Numeric.long (adds.map fun a => a.acc.toNat + a.operand.toNat) + carry.toNat

theorem chained_nil (carry : Bool) : Chained [] carry carry := by
  simp only [Chained, List.map_nil, List.length_nil, Nat.mul_zero, Nat.pow_zero, Nat.mul_one]

theorem Chained.cons {a : Addition} {adds : List Addition} {carry carry₁ carry₂ : Bool}
    (ha : a.sum.toNat + 65536 * carry₁.toNat = a.acc.toNat + a.operand.toNat + carry.toNat)
    (hadds : Chained adds carry₁ carry₂) : Chained (a :: adds) carry carry₂ := by
  have hpow : carry₂.toNat * 2 ^ (16 * (adds.length + 1)) =
      65536 * (carry₂.toNat * 2 ^ (16 * adds.length)) := by ring
  unfold Chained at hadds ⊢
  rw [List.map_cons, List.map_cons, Numeric.long_cons, Numeric.long_cons, List.length_cons, hpow]
  omega

namespace Setting

theorem chained_course {s : Setting κ} (n : Nat)
    (hkept : ∀ t ∈ s.course n, ¬t.ReplacesFlags) :
    Chained (s.additions n) s.machine.carry (Setting.next^[n] s).machine.carry := by
  induction n generalizing s with
  | zero => exact chained_nil _
  | succ n ih =>
    rw [course_succ, List.forall_mem_cons] at hkept
    have hrest := ih hkept.2
    have hcarry := carry_next hkept.1
    rw [additions, course_succ, List.filterMap_cons]
    cases hadd : s.addition? with
    | none =>
      rw [hadd] at hcarry
      simp only at hcarry
      rw [← hcarry]
      exact hrest
    | some a =>
      rw [hadd] at hcarry
      exact hrest.cons hcarry

/-- However long a machine runs, its additions are one exact addition of long numbers, if no cycle
replaces the flags as a whole. -/
theorem carries_chained (s : Setting κ) :
    (∀ n, (∀ t ∈ s.course n, ¬t.ReplacesFlags) →
      Chained (s.additions n) s.machine.carry (Setting.next^[n] s).machine.carry) ∧
    ∀ keep budget, let r := s.machine.run keep budget s.console
      (∀ t ∈ s.course r.steps, ¬t.ReplacesFlags) →
        Chained (s.additions r.steps) s.machine.carry r.machine.carry := by
  refine ⟨fun n => chained_course n, ?_⟩
  intro keep budget r hkept
  have hrun : r.Follows keep s (budget.getD Machine.unlimited) :=
    Machine.follows_run _ s.machine s.console
  have hchained := chained_course r.steps hkept
  rwa [← hrun.setting_eq] at hchained

theorem carries_chained_twice :
    let s : Setting BufferedConsole :=
      ⟨Machine.holding #[0x8006, 0x3002, 0x9800, 0x8007, 0x3003, 0xC005, 0xFFFF, 0x0004],
        BufferedConsole.ofInput []⟩
    s.additions 6 = [⟨0xFFFF, 2, 1⟩, ⟨4, 3, 8⟩] ∧
      Chained [⟨0xFFFF, 2, 1⟩, ⟨4, 3, 8⟩] false false := by
  intro s
  have hkept : ∀ t ∈ s.course 6, ¬t.ReplacesFlags := by decide
  have hadditions : s.additions 6 = [⟨0xFFFF, 2, 1⟩, ⟨4, 3, 8⟩] := by decide
  have hcarry : s.machine.carry = false := by decide
  have hcarry' : (Setting.next^[6] s).machine.carry = false := by decide
  have hchained := (carries_chained s).1 6 hkept
  rw [hadditions, hcarry, hcarry'] at hchained
  exact ⟨hadditions, hchained⟩

end Setting

end WordMachine
