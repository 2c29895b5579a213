import Mathlib.Tactic.IntervalCases
import WordMachine.Proofs.Machine.Numeric

/-!
# The cycle refines its numeric account

Fetching, executing into pending effects and committing them has the outcome, the next machine and
the console of the one-phase cycle in numbers, whatever the machine and whatever the console.
-/

namespace WordMachine.Machine

open Numeric

theorem load_numeric (m : Machine) (address : Word) :
    m.numeric.load address.toNat = (m.memory.read address).toNat := by
  have h := m.memory.slot_lt address
  simp only [MemorySize.slot] at h
  simp [State.load, numeric, Memory.read, MemorySize.slot, h]

theorem read_wrap (m : Memory) (address : Word) :
    m.read (m.size.wrap address) = m.read address := by
  simp [Memory.read]

theorem numeric_poke (m : Machine) (address value : Word) :
    (m.poke address value).numeric = m.numeric.store address.toNat value.toNat := by
  have h := m.memory.slot_lt address
  have cell : (m.poke address value).numeric.cell =
      (m.numeric.store address.toNat value.toNat).cell := by
    funext a
    simp only [numeric, State.store, poke, Memory.write, MemorySize.slot, Function.update_apply,
      Array.getElem?_set] at h ⊢
    by_cases ha : a = address.toNat % m.memory.size.words
    · simp [ha]
    · simp [ha, Ne.symm ha]
  simp only [numeric, State.store, poke, Memory.size_write] at cell ⊢
  rw [cell]

theorem poke_wrap (m : Machine) (address value : Word) :
    m.poke (m.memory.size.wrap address) value = m.poke address value := by
  simp [poke, Memory.write]

theorem index_select (n : Nat) : (Port.select n).index = n % 8 := by
  have hlt : n % 8 < 8 := Nat.mod_lt _ (by decide)
  rw [Port.select]
  generalize n % 8 = k at hlt ⊢
  interval_cases k <;> rfl

theorem toNat_consoleWord (ready : Bool) (w : Word) :
    ((if ready then 0 else PortBank.inputEmptyBit) ||| (w &&& 0x00FF)).toNat =
      (if ready then 0 else 256) + w.toNat % 256 := by
  have low : (w &&& 0x00FF).toNat = w.toNat % 2 ^ 8 := by
    rw [UInt16.toNat_and]
    exact Nat.and_two_pow_sub_one_eq_mod w.toNat 8
  have hlt : w.toNat % 2 ^ 8 < 2 ^ 8 := Nat.mod_lt _ (by decide)
  rw [UInt16.toNat_or, low]
  cases ready with
  | true => simp
  | false => exact (Nat.two_pow_add_eq_or_of_lt hlt 1).symm

theorem readPort_numeric {κ : Type} [Console κ] (m : Machine) (p : Port) (console : κ) :
    m.numeric.readPort p.index console =
      ((m.ports.read p console).1.toNat, (m.ports.read p console).2) := by
  cases p with
  | console => exact Prod.ext (toNat_consoleWord _ _).symm rfl
  | unassigned n =>
    obtain ⟨n, hn⟩ := n
    interval_cases n <;> rfl
  | _ => rfl

section

variable {κ : Type}

/-- What becomes of a machine once an execution is settled: its effects are committed, or its fault
is latched. -/
def settle (m : Machine) (x : Execution κ) : Result κ :=
  match x.fault with
  | none =>
    ⟨.continuing, ({ m with ports := x.ports, runState := .running }.commit x.pending).numeric,
      x.console⟩
  | some cause =>
    ⟨.fault cause, { m with ports := x.ports, runState := .faulted cause }.numeric, x.console⟩

def after (m : Machine) (p : Pending) : State :=
  { m.numeric with
    pc := p.nextPc.toNat, acc := p.acc.toNat, flags := p.flags.toNat, runState := .running }

theorem settle_retired (m : Machine) (p : Pending) (console : κ) (notices : List Notice)
    (h : p.memoryWrite = none) :
    m.settle ⟨none, p, m.ports, console, notices⟩ = ⟨.continuing, m.after p, console⟩ := by
  simp only [settle, commit, h]
  rfl

theorem settle_stored (m : Machine) (p : Pending) (address value : Word) (console : κ)
    (h : p.memoryWrite = some (m.memory.size.wrap address, value)) :
    m.settle ⟨none, p, m.ports, console, []⟩ =
      ⟨.continuing, (m.after p).store address.toNat value.toNat, console⟩ := by
  simp only [settle, commit, h]
  refine congrArg (Result.mk .continuing · console) ?_
  exact (congrArg numeric (poke_wrap _ address value)).trans (numeric_poke _ address value)

def settleTransfer (m : Machine) (p : Pending) (t : PortTransfer κ) : Result κ :=
  match t.answer with
  | .error cause =>
    ⟨.fault cause, { m with ports := t.bank, runState := .faulted cause }.numeric, t.console⟩
  | .ok answer =>
    let p := if answer = .inputClosed then { p with flags := Flag.halt.put true p.flags } else p
    ⟨.continuing, ({ m with ports := t.bank, runState := .running }.commit p).numeric, t.console⟩

end

variable {κ : Type} [Console κ]

theorem settle_ofPortWrite (m : Machine) (port : Port) (p : Pending) (console : κ) :
    m.settle (.ofPortWrite m.ports port m.registers.acc p console) =
      m.settleTransfer p (m.ports.write port m.registers.acc console) := by
  simp only [settle, settleTransfer, Execution.ofPortWrite]
  cases (m.ports.write port m.registers.acc console).answer <;> rfl

theorem settleTransfer_receive (m : Machine) (p : Pending) (console : κ)
    (h : p.memoryWrite = none) :
    m.settleTransfer p (m.ports.receive m.registers.acc console) =
      m.numeric.receive (m.after p) console := by
  have asked : PortBank.requestsReceive m.registers.acc = decide (bit 10 m.numeric.acc = 1) :=
    and_ne_zero_eq rfl _
  rw [PortBank.receive, State.receive, asked]
  by_cases hb : bit 10 m.numeric.acc = 1
  · rw [if_pos (decide_eq_true hb), if_pos hb]
    rcases Console.readByte console with ⟨_ | (_ | byte), console'⟩
    · rfl
    · have halt := toNat_put .halt true p.flags
      simp only [settleTransfer, if_true, commit, h, after, numeric, halt]
      rfl
    · simp only [settleTransfer, reduceCtorEq, if_false, commit, h, after, numeric]
      simp
  · rw [if_neg (by simpa using hb), if_neg hb]
    simp only [settleTransfer, reduceCtorEq, if_false, commit, h]
    rfl

theorem settle_portWrite (m : Machine) (port : Port) (p : Pending) (console : κ)
    (h : p.memoryWrite = none) :
    m.settle (.ofPortWrite m.ports port m.registers.acc p console) =
      m.numeric.writePort (m.after p) port.index console := by
  rw [settle_ofPortWrite]
  cases port with
  | switches =>
    simp only [PortBank.write, settleTransfer, reduceCtorEq, if_false, commit, h]
    rfl
  | console =>
    have asked : PortBank.requestsTransmit m.registers.acc = decide (bit 13 m.numeric.acc = 1) :=
      and_ne_zero_eq rfl _
    have byte : m.registers.acc.lowByte = UInt8.ofNat (m.numeric.acc % 256) := by
      simp [Word.lowByte, numeric, ← UInt8.toNat_inj]
    simp only [PortBank.write, PortBank.transfer, State.writePort, Port.index, asked, byte,
      decide_eq_true_eq]
    by_cases hb : bit 13 m.numeric.acc = 1
    · rw [if_pos hb, if_pos hb]
      rcases Console.writeByte console (UInt8.ofNat (m.numeric.acc % 256)) with ⟨_ | _, console'⟩
      · rfl
      · exact settleTransfer_receive m p console' h
    · rw [if_neg hb, if_neg hb]
      exact settleTransfer_receive m p console h
  | unassigned n =>
    obtain ⟨n, hn⟩ := n
    interval_cases n <;>
    · simp only [PortBank.write, settleTransfer, reduceCtorEq, if_false, commit, h]
      rfl
  | _ =>
    simp only [PortBank.write, settleTransfer, reduceCtorEq, if_false, commit, h]
    rfl

theorem settle_portRead (m : Machine) (port : Port) (p : Pending) (console : κ)
    (h : p.memoryWrite = none) :
    m.settle (.ofPortRead m.ports port p console) =
      ⟨.continuing, { m.after p with acc := (m.numeric.readPort port.index console).1 },
        (m.numeric.readPort port.index console).2⟩ := by
  rw [readPort_numeric]
  exact m.settle_retired { p with acc := (m.ports.read port console).1 } _ _ h

theorem isIndirect_numeric (m : Machine) (i : Instruction) :
    m.numeric.isIndirect i.opcode.code =
      (i.honorsIndirect && Flag.indirect.isSet m.registers.flags) := by
  rw [isSet_eq]
  rcases i with ⟨opcode, operand⟩
  cases opcode <;> rfl

theorem effective_numeric (m : Machine) (i : Instruction) :
    m.numeric.effective i.opcode.code i.operand.toNat = (m.effectiveOperand i).toNat := by
  rw [State.effective, isIndirect_numeric, effectiveOperand]
  split
  · exact load_numeric m i.operand
  · rfl

theorem systemTarget_eq (i : Instruction) :
    i.systemTarget =
      if bit 11 i.operand.toNat = 1 then .port (Port.select i.operand.toNat)
      else if bit 0 i.operand.toNat = 1 then .flags else .programCounter := by
  have low : (i.operand &&& 1 != 0) = decide (bit 0 i.operand.toNat = 1) := and_ne_zero_eq rfl _
  simp only [Instruction.systemTarget, SystemTarget.ofOperand, selectsPort_eq, low,
    decide_eq_true_eq]

theorem settle_memoryReference (m : Machine) (i : Instruction) (console : κ)
    (hclass : i.opcode.operandClass = .memoryReference) :
    m.settle (m.execute i console) =
      m.numeric.execute i.opcode.code i.operand.toNat console := by
  have lop := effective_numeric m i
  have indirect := isIndirect_numeric m i
  have next := toNat_add_one_wrap m.memory.size m.registers.pc
  cases op : i.opcode
  all_goals
    simp only [op, Opcode.operandClass, reduceCtorEq] at hclass
  all_goals
    simp only [execute, State.execute, op, Opcode.code] at lop indirect ⊢
  case or =>
    rw [settle_retired _ _ _ _ rfl, lop]
    simp only [after, next, UInt16.toNat_or]
    rfl
  case and =>
    rw [settle_retired _ _ _ _ rfl, lop, ← indirect]
    simp only [after, next, UInt16.toNat_and, toNat_andMask]
    rfl
  case xor =>
    rw [settle_retired _ _ _ _ rfl, lop]
    simp only [after, next, UInt16.toNat_xor]
    rfl
  case add =>
    have carry := toNat_isSet .carry m.registers.flags
    rw [settle_retired _ _ _ _ rfl, lop]
    simp only [after, next, toNat_addWithCarry, toNat_put, carry_addWithCarry, carry]
    rfl
  case lshift =>
    rw [settle_retired _ _ _ _ rfl, lop]
    simp only [after, next, toNat_shiftLeft, Word.shiftCount, population_eq, isSet_eq,
      decide_eq_true_eq]
    rfl
  case rshift =>
    rw [settle_retired _ _ _ _ rfl, lop]
    simp only [after, next, toNat_shiftRight, Word.shiftCount, population_eq, isSet_eq,
      decide_eq_true_eq]
    rfl
  case load =>
    rw [settle_retired _ _ _ _ rfl, lop, load_numeric]
    simp only [after, next]
    rfl
  case store =>
    rw [settle_stored _ _ _ _ _ rfl, lop]
    simp only [after, next]
    rfl
  case jump =>
    rw [settle_retired _ _ _ _ rfl, lop]
    simp only [after, MemorySize.toNat_wrap]
    rfl
  case jumpz =>
    -- the test is one of numbers on the one side and of words on the other
    have zero : m.numeric.acc = 0 ↔ m.registers.acc = 0 := by
      rw [← UInt16.toNat_inj]
      rfl
    by_cases h : m.registers.acc = 0
    · rw [if_pos h, if_pos (zero.2 h), settle_retired _ _ _ _ rfl, lop]
      simp only [after, MemorySize.toNat_wrap]
      rfl
    · rw [if_neg h, if_neg (mt zero.1 h), settle_retired _ _ _ _ rfl]
      simp only [after, next]
      rfl

theorem settle_portOrMemory (m : Machine) (i : Instruction) (hi : i.operand.toNat < 4096)
    (console : κ) (hclass : i.opcode.operandClass = .portOrMemory) :
    m.settle (m.execute i console) =
      m.numeric.execute i.opcode.code i.operand.toNat console := by
  have next := toNat_add_one_wrap m.memory.size m.registers.pc
  have cell := translate_eq hi m.memory.size
  cases op : i.opcode
  all_goals
    simp only [op, Opcode.operandClass, reduceCtorEq] at hclass
  all_goals
    simp only [execute, State.execute, op, Opcode.code]
    rw [cell]
  case loadDirect =>
    by_cases hs : bit 11 i.operand.toNat = 1
    · simp only [hs, if_true]
      rw [settle_portRead _ _ _ _ rfl, index_select]
      simp only [after, next]
      rfl
    · simp only [hs, if_false]
      rw [settle_retired _ _ _ _ rfl, read_wrap, load_numeric]
      simp only [after, next]
      rfl
  case storeDirect =>
    by_cases hs : bit 11 i.operand.toNat = 1
    · simp only [hs, if_true]
      rw [settle_portWrite _ _ _ _ rfl, index_select]
      simp only [after, next]
      rfl
    · simp only [hs, if_false]
      rw [settle_stored _ _ _ _ _ rfl]
      simp only [after, next]
      rfl

theorem settle_immediate (m : Machine) (i : Instruction) (console : κ)
    (hclass : i.opcode.operandClass = .immediate) :
    m.settle (m.execute i console) =
      m.numeric.execute i.opcode.code i.operand.toNat console := by
  have next := toNat_add_one_wrap m.memory.size m.registers.pc
  cases op : i.opcode
  all_goals
    simp only [op, Opcode.operandClass, reduceCtorEq] at hclass
  all_goals
    simp only [execute, State.execute, op, Opcode.code]
    rw [settle_retired _ _ _ _ rfl]
    simp only [after, next]
    rfl

theorem settle_system (m : Machine) (i : Instruction) (console : κ)
    (hclass : i.opcode.operandClass = .system) :
    m.settle (m.execute i console) =
      m.numeric.execute i.opcode.code i.operand.toNat console := by
  have next := toNat_add_one_wrap m.memory.size m.registers.pc
  have target := systemTarget_eq i
  cases op : i.opcode
  all_goals
    simp only [op, Opcode.operandClass, reduceCtorEq] at hclass
  all_goals
    simp only [execute, State.execute, op, Opcode.code]
    rw [target]
  case set =>
    by_cases hs : bit 11 i.operand.toNat = 1
    · simp only [hs, if_true]
      rw [settle_portWrite _ _ _ _ rfl, index_select]
      simp only [after, next]
      rfl
    · by_cases h0 : bit 0 i.operand.toNat = 1
      · simp only [hs, h0, if_true, if_false]
        rw [settle_retired _ _ _ _ rfl]
        simp only [after, next]
        rfl
      · simp only [hs, h0, if_false]
        rw [settle_retired _ _ _ _ rfl]
        simp only [after, MemorySize.toNat_wrap]
        rfl
  case get =>
    by_cases hs : bit 11 i.operand.toNat = 1
    · simp only [hs, if_true]
      rw [settle_portRead _ _ _ _ rfl, index_select]
      simp only [after, next]
      rfl
    · by_cases h0 : bit 0 i.operand.toNat = 1
      · simp only [hs, h0, if_true, if_false]
        rw [settle_retired _ _ _ _ rfl]
        simp only [after, next]
        rfl
      · simp only [hs, h0, if_false]
        rw [settle_retired _ _ _ _ rfl]
        simp only [after, next]
        rfl

theorem settle_execute (m : Machine) (i : Instruction) (hi : i.operand.toNat < 4096)
    (console : κ) :
    m.settle (m.execute i console) =
      m.numeric.execute i.opcode.code i.operand.toNat console := by
  cases hclass : i.opcode.operandClass with
  | memoryReference => exact settle_memoryReference m i console hclass
  | portOrMemory => exact settle_portOrMemory m i hi console hclass
  | immediate => exact settle_immediate m i console hclass
  | system => exact settle_system m i console hclass

theorem numeric_deriveStatus (m : Machine) :
    m.deriveStatus.numeric =
      { m.numeric with flags := status m.numeric.flags m.numeric.acc } := by
  simp only [numeric, deriveStatus, toNat_derive]

theorem numeric_decode (m : Machine) :
    (Instruction.decode (m.memory.read m.registers.pc)).opcode.code =
        m.numeric.load m.numeric.pc / 4096 ∧
      (Instruction.decode (m.memory.read m.registers.pc)).operand.toNat =
        m.numeric.load m.numeric.pc % 4096 := by
  have word : m.numeric.load m.numeric.pc = (m.memory.read m.registers.pc).toNat :=
    load_numeric m m.registers.pc
  have hlt := (m.memory.read m.registers.pc).toNat_lt
  simp only [Instruction.decode, Opcode.code_ofCode, toNat_and_operandMask, word, and_true]
  omega

theorem step_of_unfaulted {m : Machine} (h : ∀ cause, m.runState ≠ .faulted cause) (console : κ) :
    Result.mk (m.step console).outcome (m.step console).machine.numeric (m.step console).console =
      if Flag.halt.isSet m.deriveStatus.registers.flags then
        ⟨.halted, { m.deriveStatus with runState := .halted }.numeric, console⟩
      else if Flag.reset.isSet m.deriveStatus.registers.flags then
        ⟨.continuing, { m.deriveStatus with registers := {}, runState := .running }.numeric,
          console⟩
      else
        m.deriveStatus.settle (m.deriveStatus.execute
          (Instruction.decode (m.memory.read m.registers.pc)) console) := by
  cases hr : m.runState with
  | faulted cause => exact absurd hr (h cause)
  | _ =>
    simp only [step, hr]
    split
    · rfl
    · split
      · rfl
      · simp only [settle]
        split <;> simp only [*]

theorem step_numeric (m : Machine) (console : κ) :
    Result.mk (m.step console).outcome (m.step console).machine.numeric (m.step console).console =
      m.numeric.step console := by
  cases hr : m.runState with
  | faulted cause =>
    have hr' : m.numeric.runState = .faulted cause := hr
    simp only [step_of_faulted hr, State.step, hr']
  | _ =>
    have hr' : m.numeric.runState = m.runState := rfl
    have derived := numeric_deriveStatus m
    have flags : m.deriveStatus.registers.flags.toNat = status m.numeric.flags m.numeric.acc :=
      congrArg State.flags derived
    obtain ⟨opcode, operand⟩ := numeric_decode m
    have hlt : (Instruction.decode (m.memory.read m.registers.pc)).operand.toNat < 4096 := by
      rw [operand]
      exact Nat.mod_lt _ (by decide)
    rw [step_of_unfaulted (by simp [hr]), settle_execute _ _ hlt, opcode, operand, derived]
    simp only [State.step, hr', hr, isSet_eq, place, flags, decide_eq_true_eq]
    split
    · exact congrArg (fun s : State => Result.mk .halted { s with runState := .halted } console)
        derived
    · split <;> rfl

/-- The outcome and the console of a cycle are those of the numeric account, and the machine after
it is the one machine with the account's numbers. -/
theorem step_refines (m : Machine) (console : κ) :
    (m.step console).outcome = (m.numeric.step console).outcome ∧
      (∀ next : Machine,
        next = (m.step console).machine ↔ next.numeric = (m.numeric.step console).state) ∧
      (m.step console).console = (m.numeric.step console).console := by
  rw [← step_numeric]
  refine ⟨rfl, fun next => ⟨fun h => congrArg numeric h, fun h => numeric_injective h⟩, rfl⟩

end WordMachine.Machine
