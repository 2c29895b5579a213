import WordMachine.Machine.Demand

/-!
# What a cycle can do

A cycle meets a latched fault, halts, resets, retires an instruction or fails at one. `Turns` lists
these five with the flags that lead to them. An instruction leaves the ports alone, reads one, or
writes the accumulator to one. Which of these it does, and what else, is settled before a port or
the console is looked at: that is its `PortUse`. `Executes` lists the three for one execution.
-/

namespace WordMachine

theorem Flag.derive_derive (flags acc : Word) :
    Flag.derive (Flag.derive flags acc) acc = Flag.derive flags acc := by
  have hstatus : Flag.status acc &&& ~~~Flag.statusMask = 0 := by
    rw [← Flag.status_and_statusMask, UInt16.and_assoc]
    simp [Flag.statusMask]
  rw [Flag.derive, Flag.derive, Word.or_and, UInt16.and_assoc, UInt16.and_self, hstatus,
    UInt16.or_zero]

def StepOutcome.runState : StepOutcome → RunState
  | continuing => .running
  | halted => .halted
  | fault cause => .faulted cause

namespace Execution

variable {κ : Type} [Console κ] {ports : PortBank} {port : Port} {value : Word} {p : Pending}
  {console : κ}

theorem ofPortWrite_of_error {cause : Fault}
    (h : (ports.write port value console).answer = .error cause) :
    ofPortWrite ports port value p console =
      ⟨some cause, p, (ports.write port value console).bank,
        (ports.write port value console).console,
        (ports.write port value console).remarks.map .remark⟩ := by
  simp only [ofPortWrite, h]

theorem ofPortWrite_of_ok {answer : PortWrite}
    (h : (ports.write port value console).answer = .ok answer) :
    ofPortWrite ports port value p console =
      ⟨none, if answer = .inputClosed then { p with flags := Flag.halt.put true p.flags } else p,
        (ports.write port value console).bank, (ports.write port value console).console,
        (ports.write port value console).remarks.map .remark ++
          [.event (.portWrite port value)]⟩ := by
  simp only [ofPortWrite, h]

theorem fault_ofPortWrite (cause : Fault) :
    (ofPortWrite ports port value p console).fault = some cause ↔
      (ports.write port value console).answer = .error cause := by
  cases h : (ports.write port value console).answer with
  | error cause' => simp [ofPortWrite_of_error h]
  | ok answer => simp [ofPortWrite_of_ok h]

theorem console_ofPortWrite :
    (ofPortWrite ports port value p console).console =
      (ports.write port value console).console := by
  cases h : (ports.write port value console).answer with
  | error cause => rw [ofPortWrite_of_error h]
  | ok answer => rw [ofPortWrite_of_ok h]

end Execution

inductive PortUse
  | none (p : Pending)
  | read (port : Port) (p : Pending)
  | write (port : Port) (p : Pending)

namespace PortUse

def pending : PortUse → Pending
  | none p | read _ p | write _ p => p

def written? : PortUse → Option Port
  | write port _ => some port
  | _ => .none

def execution {κ : Type} [Console κ] (acc : Word) (bank : PortBank) (console : κ) :
    PortUse → Execution κ
  | none p => ⟨.none, p, bank, console, []⟩
  | read port p => .ofPortRead bank port p console
  | write port p => .ofPortWrite bank port acc p console

end PortUse

namespace Machine

variable {κ : Type} [Console κ] {m : Machine} {console : κ}

def withPorts (m : Machine) (bank : PortBank) : Machine := { m with ports := bank }

def onward (m : Machine) : Pending :=
  ⟨m.memory.size.wrap (m.registers.pc + 1), m.registers.acc, m.registers.flags, none⟩

inductive Executes (m : Machine) (i : Instruction) (console : κ) : Execution κ → Prop
  | plain {p : Pending} (hport : i.writtenPort? m.memory.size = none) :
      Executes m i console ⟨none, p, m.ports, console, []⟩
  | read {port : Port} {p : Pending} (hport : i.writtenPort? m.memory.size = none) :
      Executes m i console (.ofPortRead m.ports port p console)
  | write {port : Port} {p : Pending} (hport : i.writtenPort? m.memory.size = some port) :
      Executes m i console (.ofPortWrite m.ports port m.registers.acc p console)

/-- The use is all that the instruction does, whatever the port bank and the console are. -/
structure Uses (m : Machine) (i : Instruction) (u : PortUse) : Prop where
  nextPc_eq : ∃ address, u.pending.nextPc = m.memory.size.wrap address
  written_eq : i.writtenPort? m.memory.size = u.written?
  execute_eq : ∀ {κ : Type} [Console κ] (bank : PortBank) (console : κ),
    (m.withPorts bank).execute i console = u.execution m.registers.acc bank console

theorem exists_use_of_plain {i : Instruction} {p : Pending}
    (hport : i.writtenPort? m.memory.size = none)
    (hexecute : ∀ {κ : Type} [Console κ] (bank : PortBank) (console : κ),
      (m.withPorts bank).execute i console = ⟨none, p, bank, console, []⟩)
    (hnext : ∃ address, p.nextPc = m.memory.size.wrap address) : ∃ u, m.Uses i u :=
  ⟨.none p, hnext, hport, hexecute⟩

theorem exists_use (m : Machine) (i : Instruction) : ∃ u, m.Uses i u := by
  have hoperand (bank : PortBank) :
      ({ m with ports := bank } : Machine).effectiveOperand i = m.effectiveOperand i := rfl
  -- without an access the effects are found by running the case, then their counter is looked at
  cases op : i.opcode
  case loadDirect =>
    have hport : i.writtenPort? m.memory.size = none := by simp [Instruction.writtenPort?, op]
    cases haddress : Address.translate i.operand m.memory.size with
    | memory address =>
      apply exists_use_of_plain hport
      · intro κ _ bank console
        simp only [execute, op, haddress, withPorts]
        rfl
      · exact ⟨_, rfl⟩
    | port port =>
      refine ⟨.read port m.onward, ⟨_, rfl⟩, hport, ?_⟩
      intro κ _ bank console
      simp only [execute, op, haddress, withPorts]
      rfl
  case storeDirect =>
    cases haddress : Address.translate i.operand m.memory.size with
    | memory address =>
      apply exists_use_of_plain (by simp [Instruction.writtenPort?, op, haddress])
      · intro κ _ bank console
        simp only [execute, op, haddress, withPorts]
        rfl
      · exact ⟨_, rfl⟩
    | port port =>
      have hport : i.writtenPort? m.memory.size = some port := by
        simp [Instruction.writtenPort?, op, haddress]
      refine ⟨.write port m.onward, ⟨_, rfl⟩, hport, ?_⟩
      intro κ _ bank console
      simp only [execute, op, haddress, withPorts]
      rfl
  case set =>
    cases htarget : i.systemTarget with
    | port port =>
      have hport : i.writtenPort? m.memory.size = some port := by
        simp [Instruction.writtenPort?, op, htarget]
      refine ⟨.write port m.onward, ⟨_, rfl⟩, hport, ?_⟩
      intro κ _ bank console
      simp only [execute, op, htarget]
      rfl
    | _ =>
      apply exists_use_of_plain (by simp [Instruction.writtenPort?, op, htarget])
      · intro κ _ bank console
        simp only [execute, op, htarget, withPorts]
        rfl
      · exact ⟨_, rfl⟩
  case get =>
    have hport : i.writtenPort? m.memory.size = none := by simp [Instruction.writtenPort?, op]
    cases htarget : i.systemTarget with
    | port port =>
      refine ⟨.read port m.onward, ⟨_, rfl⟩, hport, ?_⟩
      intro κ _ bank console
      simp only [execute, op, htarget]
      rfl
    | _ =>
      apply exists_use_of_plain hport
      · intro κ _ bank console
        simp only [execute, op, htarget, withPorts]
        rfl
      · exact ⟨_, rfl⟩
  case jumpz =>
    have hport : i.writtenPort? m.memory.size = none := by simp [Instruction.writtenPort?, op]
    by_cases hzero : m.registers.acc = 0
    all_goals
      apply exists_use_of_plain hport
      · intro κ _ bank console
        simp only [execute, op, withPorts, hoperand, hzero, if_true, if_false]
        rfl
      · exact ⟨_, rfl⟩
  all_goals
    apply exists_use_of_plain (by simp [Instruction.writtenPort?, op])
    · intro κ _ bank console
      simp only [execute, op, withPorts, hoperand]
      rfl
    · exact ⟨_, rfl⟩

theorem executes_execute (m : Machine) (i : Instruction) (console : κ) :
    m.Executes i console (m.execute i console) := by
  obtain ⟨u, _, hwritten, hexecute⟩ := exists_use m i
  have heq : m.execute i console = u.execution m.registers.acc m.ports console :=
    hexecute m.ports console
  rw [heq]
  cases u with
  | none p => exact .plain hwritten
  | read port p => exact .read hwritten
  | write port p => exact .write hwritten

def current (m : Machine) : Instruction := Instruction.decode (m.memory.read m.registers.pc)

def execution (m : Machine) (console : κ) : Execution κ :=
  m.deriveStatus.execute m.current console

theorem exists_use_current (m : Machine) : ∃ u, m.deriveStatus.Uses m.current u :=
  exists_use _ _

theorem Uses.execution_eq {u : PortUse} (h : m.deriveStatus.Uses m.current u) (bank : PortBank)
    (console : κ) : (m.withPorts bank).execution console =
      u.execution m.registers.acc bank console :=
  h.execute_eq bank console

theorem executes_execution (m : Machine) (console : κ) :
    m.Executes m.current console (m.execution console) := by
  have hx : m.deriveStatus.Executes m.current console (m.execution console) :=
    executes_execute _ _ _
  generalize m.execution console = x at hx ⊢
  cases hx with
  | plain hport => exact .plain hport
  | read hport => exact .read hport
  | write hport => exact .write hport

def startNotice (m : Machine) : Notice :=
  .event (.start m.registers.pc (m.memory.read m.registers.pc) m.registers.acc
    m.deriveStatus.registers.flags)

inductive Turns (m : Machine) (console : κ) : Cycle κ → Prop
  | latched {cause : Fault} (hlatched : m.runState = .faulted cause) :
      Turns m console ⟨.fault cause, m, console, []⟩
  | halted (hlive : ∀ cause, m.runState ≠ .faulted cause)
      (hhalt : Flag.halt.isSet m.registers.flags = true) :
      Turns m console ⟨.halted, { m.deriveStatus with runState := .halted }, console,
        [m.startNotice, .event (.halted m.registers.pc)]⟩
  | reset (hlive : ∀ cause, m.runState ≠ .faulted cause)
      (hhalt : Flag.halt.isSet m.registers.flags = false)
      (hreset : Flag.reset.isSet m.registers.flags = true) :
      Turns m console ⟨.continuing, { m with registers := {}, runState := .running }, console,
        [m.startNotice, .remark (.resetRequested m.registers.pc),
          .event (.reset m.registers.pc)]⟩
  | retired (hexec : m.executes = true) (hfault : (m.execution console).fault = none) :
      Turns m console ⟨.continuing,
        { m with ports := (m.execution console).ports, runState := .running }.commit
          (m.execution console).pending,
        (m.execution console).console, m.startNotice :: (m.execution console).notices⟩
  | failed {cause : Fault} (hexec : m.executes = true)
      (hfault : (m.execution console).fault = some cause) :
      Turns m console ⟨.fault cause,
        { m.deriveStatus with ports := (m.execution console).ports, runState := .faulted cause },
        (m.execution console).console,
        m.startNotice :: (m.execution console).notices ++
          [.remark (.faultLatched cause m.registers.pc), .event (.fault cause m.registers.pc)]⟩

theorem executes_eq_true_iff : m.executes = true ↔ (∀ cause, m.runState ≠ .faulted cause) ∧
    Flag.halt.isSet m.registers.flags = false ∧ Flag.reset.isSet m.registers.flags = false := by
  unfold executes
  cases hstate : m.runState <;> simp

theorem step_of_live (hlive : ∀ cause, m.runState ≠ .faulted cause) (console : κ) :
    m.step console =
      if Flag.halt.isSet m.registers.flags then
        ⟨.halted, { m.deriveStatus with runState := .halted }, console,
          [m.startNotice, .event (.halted m.registers.pc)]⟩
      else if Flag.reset.isSet m.registers.flags then
        ⟨.continuing, { m with registers := {}, runState := .running }, console,
          [m.startNotice, .remark (.resetRequested m.registers.pc),
            .event (.reset m.registers.pc)]⟩
      else
        match (m.execution console).fault with
        | none =>
          ⟨.continuing,
            { m with ports := (m.execution console).ports, runState := .running }.commit
              (m.execution console).pending,
            (m.execution console).console, m.startNotice :: (m.execution console).notices⟩
        | some cause =>
          ⟨.fault cause,
            { m.deriveStatus with
              ports := (m.execution console).ports, runState := .faulted cause },
            (m.execution console).console,
            m.startNotice :: (m.execution console).notices ++
              [.remark (.faultLatched cause m.registers.pc),
                .event (.fault cause m.registers.pc)]⟩ := by
  have hhalt : Flag.halt.isSet m.deriveStatus.registers.flags =
      Flag.halt.isSet m.registers.flags := Flag.isSet_derive (by decide) _ _
  have hreset : Flag.reset.isSet m.deriveStatus.registers.flags =
      Flag.reset.isSet m.registers.flags := Flag.isSet_derive (by decide) _ _
  cases hstate : m.runState with
  | faulted cause => exact absurd hstate (hlive cause)
  | _ =>
    simp only [step, hstate, hhalt, hreset]
    rfl

theorem turns_step (m : Machine) (console : κ) : m.Turns console (m.step console) := by
  by_cases hlatched : ∃ cause, m.runState = .faulted cause
  · obtain ⟨cause, hlatched⟩ := hlatched
    rw [step_of_faulted hlatched]
    exact .latched hlatched
  have hlive : ∀ cause, m.runState ≠ .faulted cause := by simpa using hlatched
  rw [step_of_live hlive]
  split
  · rename_i hhalt
    exact .halted hlive hhalt
  · rename_i hhalt
    rw [Bool.not_eq_true] at hhalt
    split
    · rename_i hreset
      exact .reset hlive hhalt hreset
    · rename_i hreset
      rw [Bool.not_eq_true] at hreset
      have hexec : m.executes = true := executes_eq_true_iff.mpr ⟨hlive, hhalt, hreset⟩
      split
      · rename_i hfault
        exact .retired hexec hfault
      · rename_i hfault
        exact .failed hexec hfault

theorem step_of_turns {c : Cycle κ} (h : m.Turns console c) : m.step console = c := by
  cases h with
  | latched hlatched => exact step_of_faulted hlatched console
  | halted hlive hhalt => rw [step_of_live hlive, if_pos hhalt]
  | reset hlive hhalt hreset =>
    rw [step_of_live hlive, if_neg (by simp [hhalt]), if_pos hreset]
  | retired hexec hfault | failed hexec hfault =>
    obtain ⟨hlive, hhalt, hreset⟩ := executes_eq_true_iff.mp hexec
    rw [step_of_live hlive, if_neg (by simp [hhalt]), if_neg (by simp [hreset]), hfault]

@[simp] theorem runState_commit (m : Machine) (p : Pending) :
    (m.commit p).runState = m.runState := by
  unfold commit
  split <;> rfl

theorem ports_commit (m : Machine) (p : Pending) : (m.commit p).ports = m.ports := by
  unfold commit
  split <;> rfl

theorem runState_step (m : Machine) (console : κ) :
    (m.step console).machine.runState = (m.step console).outcome.runState := by
  have hturn := turns_step m console
  generalize m.step console = c at hturn
  cases hturn with
  | latched hlatched => exact hlatched
  | retired => exact runState_commit _ _
  | halted | reset | failed => rfl

theorem outcome_eq_fault_iff {cause : Fault} : (m.step console).outcome = .fault cause ↔
    m.runState = .faulted cause ∨
      (m.executes = true ∧ (m.execution console).fault = some cause) := by
  have hturn := turns_step m console
  generalize m.step console = c at hturn
  cases hturn with
  | latched hlatched => simp [hlatched, executes_eq_true_iff]
  | halted hlive hhalt => simp [hlive, hhalt, executes_eq_true_iff]
  | reset hlive hhalt hreset => simp [hlive, hreset, executes_eq_true_iff]
  | retired hexec hfault => simp [(executes_eq_true_iff.mp hexec).1, hfault]
  | failed hexec hfault => simp [(executes_eq_true_iff.mp hexec).1, hexec, hfault]

theorem step_of_stopped (hstop : (m.step console).outcome ≠ .continuing) (console' : κ) :
    ((m.step console).machine.step console').outcome = (m.step console).outcome ∧
      ((m.step console).machine.step console').machine = (m.step console).machine ∧
      ((m.step console).machine.step console').console = console' := by
  have hturn := turns_step m console
  generalize m.step console = c at hstop hturn
  cases hturn with
  | latched hlatched => simp [step_of_faulted hlatched]
  | halted hlive hhalt =>
    have hhalt' : Flag.halt.isSet m.deriveStatus.registers.flags = true := by
      rw [← hhalt]
      exact Flag.isSet_derive (by decide) _ _
    have hstep := step_of_halt (m := { m.deriveStatus with runState := .halted })
      (by simp) hhalt' console'
    rw [hstep]
    simp [deriveStatus, Flag.derive_derive]
  | reset | retired => exact absurd rfl hstop
  | failed hexec hfault => simp [step_of_faulted]

end Machine

end WordMachine
