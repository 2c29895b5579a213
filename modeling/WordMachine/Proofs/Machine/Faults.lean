import Mathlib.Logic.Relation
import WordMachine.Proofs.Machine.Course
import WordMachine.Proofs.Machine.Refinement

/-!
# Faults

Only the console can make a cycle fault, at a word that writes to its port. A transmission comes
before a reception, so a reception may fail after a byte was sent, and nothing is received after a
transmission that failed. The machine itself keeps all but its status flags and its run state.
-/

namespace WordMachine

open Numeric

variable {κ : Type} [Console κ] {bank : PortBank} {value : Word} {m : Machine} {console : κ}
  {cause : Fault}

namespace PortBank

def afterTransmit (value : Word) (console : κ) : κ :=
  if bit 13 value.toNat = 1 then (Console.writeByte console value.lowByte).2 else console

def TransferFails (value : Word) (console : κ) : Fault → Prop
  | .consoleWrite =>
    bit 13 value.toNat = 1 ∧ ∃ e, (Console.writeByte console value.lowByte).1 = .error e
  | .consoleRead =>
    bit 10 value.toNat = 1 ∧
      (bit 13 value.toNat = 1 → (Console.writeByte console value.lowByte).1 = .ok ()) ∧
        ∃ e, (Console.readByte (afterTransmit value console)).1 = .error e

def afterFailure (value : Word) (console : κ) : Fault → κ
  | .consoleWrite => (Console.writeByte console value.lowByte).2
  | .consoleRead => (Console.readByte (afterTransmit value console)).2

theorem requestsTransmit_eq (value : Word) :
    requestsTransmit value = decide (bit 13 value.toNat = 1) :=
  and_ne_zero_eq rfl value

theorem requestsReceive_eq (value : Word) :
    requestsReceive value = decide (bit 10 value.toNat = 1) :=
  and_ne_zero_eq rfl value

theorem receive_error_iff : (bank.receive value console).answer = .error cause ↔
    cause = .consoleRead ∧ bit 10 value.toNat = 1 ∧
      ∃ e, (Console.readByte console).1 = .error e := by
  rw [receive, requestsReceive_eq]
  by_cases hreceive : bit 10 value.toNat = 1
  · rw [if_pos (decide_eq_true hreceive)]
    rcases Console.readByte console with ⟨e | _ | byte, console'⟩ <;> simp [hreceive, eq_comm]
  · simp [hreceive]

theorem receive_of_error (h : (bank.receive value console).answer = .error cause) :
    (bank.receive value console).bank = bank ∧
      (bank.receive value console).console = (Console.readByte console).2 := by
  obtain ⟨-, hreceive, e, hread⟩ := receive_error_iff.mp h
  have hasked : requestsReceive value = true := by
    rw [requestsReceive_eq]
    exact decide_eq_true hreceive
  rw [receive, if_pos hasked]
  rcases hcall : Console.readByte console with ⟨answer, console'⟩
  obtain rfl : answer = .error e := by simpa [hcall] using hread
  exact ⟨rfl, rfl⟩

theorem transfer_eq (bank : PortBank) (value : Word) (console : κ) :
    bank.transfer value console = if bit 13 value.toNat = 1 then
      match (Console.writeByte console value.lowByte).1 with
      | .ok () => bank.receive value (afterTransmit value console)
      | .error e => ⟨.error .consoleWrite, bank, afterTransmit value console, [.consoleFailed e]⟩
    else bank.receive value console := by
  rw [transfer, requestsTransmit_eq, afterTransmit]
  by_cases htransmit : bit 13 value.toNat = 1
  · simp only [htransmit, decide_true, if_true]
    rcases Console.writeByte console value.lowByte with ⟨_ | _, _⟩ <;> rfl
  · simp [htransmit]

theorem transfer_error_iff : (bank.transfer value console).answer = .error cause ↔
    TransferFails value console cause := by
  rw [transfer_eq]
  by_cases htransmit : bit 13 value.toNat = 1
  · simp only [htransmit, if_true]
    cases hwrite : (Console.writeByte console value.lowByte).1 with
    | error e => cases cause <;> simp [TransferFails, htransmit, hwrite]
    | ok answer =>
      simp only [receive_error_iff]
      cases cause <;> simp [TransferFails, htransmit, hwrite]
  · rw [if_neg htransmit, receive_error_iff]
    cases cause <;> simp [TransferFails, afterTransmit, htransmit]

theorem transfer_of_error (h : (bank.transfer value console).answer = .error cause) :
    (bank.transfer value console).bank = bank ∧
      (bank.transfer value console).console = afterFailure value console cause := by
  have hfails := transfer_error_iff.mp h
  rw [transfer_eq] at h ⊢
  cases cause with
  | consoleWrite =>
    obtain ⟨htransmit, e, hwrite⟩ := hfails
    simp [htransmit, hwrite, afterTransmit, afterFailure]
  | consoleRead =>
    obtain ⟨-, hwrite, -⟩ := hfails
    by_cases htransmit : bit 13 value.toNat = 1
    · simp only [htransmit, if_true, hwrite htransmit] at h ⊢
      exact receive_of_error h
    · rw [if_neg htransmit] at h ⊢
      have hconsole : afterTransmit value console = console := if_neg htransmit
      rw [afterFailure, hconsole]
      exact receive_of_error h

end PortBank

namespace Machine

/-- The opcode is 9 or 14, bit 11 selects the ports, and the port is 1. -/
def AtConsoleWrite (m : Machine) : Prop :=
  let word := (m.memory.read m.registers.pc).toNat
  (word / 4096 = 9 ∨ word / 4096 = 14) ∧ bit 11 word = 1 ∧ word % 8 = 1

end Machine

theorem Port.select_eq_console_iff (n : Nat) : Port.select n = .console ↔ n % 8 = 1 := by
  have hlt : n % 8 < 8 := Nat.mod_lt _ (by decide)
  rw [Port.select]
  generalize n % 8 = k at hlt
  interval_cases k <;> simp

theorem Opcode.ofCode_eq_iff (n : Nat) (op : Opcode) : Opcode.ofCode n = op ↔ n % 16 = op.code := by
  constructor
  · rintro rfl
    exact (Opcode.code_ofCode n).symm
  · intro h
    rw [← Opcode.code_ofCode] at h
    rw [← Opcode.ofCode_code (Opcode.ofCode n), h, Opcode.ofCode_code]

theorem Instruction.writtenPort?_eq {i : Instruction} (hi : i.operand.toNat < 4096)
    (size : MemorySize) :
    i.writtenPort? size =
      if (i.opcode = .storeDirect ∨ i.opcode = .set) ∧ bit 11 i.operand.toNat = 1 then
        some (Port.select i.operand.toNat)
      else none := by
  have haddress := translate_eq hi size
  have htarget := Machine.systemTarget_eq i
  cases op : i.opcode
  case storeDirect =>
    simp only [writtenPort?, op, haddress]
    by_cases hio : bit 11 i.operand.toNat = 1 <;> simp [hio]
  case set =>
    simp only [writtenPort?, op, htarget]
    by_cases hio : bit 11 i.operand.toNat = 1
    · simp [hio]
    · by_cases hflags : bit 0 i.operand.toNat = 1 <;> simp [hio, hflags]
  all_goals simp [writtenPort?, op]

theorem Machine.writtenPort?_current (m : Machine) :
    m.current.writtenPort? m.memory.size = some .console ↔ m.AtConsoleWrite := by
  have hword := (m.memory.read m.registers.pc).toNat_lt
  have hoperand : m.current.operand.toNat = (m.memory.read m.registers.pc).toNat % 4096 :=
    toNat_and_operandMask _
  have hopcode (op : Opcode) : m.current.opcode = op ↔
      (m.memory.read m.registers.pc).toNat / 4096 = op.code := by
    rw [Machine.current, Instruction.decode, Opcode.ofCode_eq_iff, Nat.mod_eq_of_lt]
    omega
  have hselect : bit 11 m.current.operand.toNat = bit 11 (m.memory.read m.registers.pc).toNat := by
    rw [hoperand, bit, bit]
    omega
  have hport : m.current.operand.toNat % 8 = (m.memory.read m.registers.pc).toNat % 8 := by
    rw [hoperand]
    omega
  rw [Instruction.writtenPort?_eq (by omega)]
  simp only [Option.ite_none_right_eq_some, Option.some.injEq, Port.select_eq_console_iff, hport,
    hopcode, hselect, Opcode.code, and_assoc, AtConsoleWrite]

namespace Machine

theorem fault_execution (m : Machine) (console : κ) (cause : Fault) :
    (m.execution console).fault = some cause ↔
      m.AtConsoleWrite ∧ PortBank.TransferFails m.registers.acc console cause := by
  rw [← writtenPort?_current]
  have hx := executes_execution m console
  generalize m.execution console = x at hx
  cases hx with
  | plain hport => simp [hport]
  | read hport => simp [hport, Execution.ofPortRead]
  | @write port p hport =>
    rw [Execution.fault_ofPortWrite, hport]
    cases port with
    | console => simp [PortBank.write, PortBank.transfer_error_iff]
    | _ => simp [PortBank.write]

theorem execution_of_fault (h : (m.execution console).fault = some cause) :
    (m.execution console).ports = m.ports ∧
      (m.execution console).console = PortBank.afterFailure m.registers.acc console cause := by
  have hx := executes_execution m console
  generalize m.execution console = x at h hx
  cases hx with
  | plain => simp at h
  | read => simp [Execution.ofPortRead] at h
  | @write port p =>
    have herror := Execution.fault_ofPortWrite cause |>.mp h
    rw [Execution.ofPortWrite_of_error herror]
    cases port with
    | console => exact PortBank.transfer_of_error herror
    | _ => simp [PortBank.write] at herror

theorem executes_iff_bits (hlive : ∀ cause, m.runState ≠ .faulted cause) :
    m.executes = true ↔ bit 7 m.registers.flags.toNat = 0 ∧ bit 5 m.registers.flags.toNat = 0 := by
  have hclear (f : Flag) : f.isSet m.registers.flags = false ↔
      bit (place f) m.registers.flags.toNat = 0 := by
    rw [← toNat_isSet]
    cases f.isSet m.registers.flags <;> simp
  rw [executes_eq_true_iff, hclear, hclear]
  simp [hlive, place]

theorem step_of_fault (hlive : ∀ cause, m.runState ≠ .faulted cause)
    (h : (m.step console).outcome = .fault cause) :
    (m.step console).machine = { m.deriveStatus with runState := .faulted cause } ∧
      (m.step console).console = PortBank.afterFailure m.registers.acc console cause := by
  have hturn := turns_step m console
  generalize m.step console = c at h hturn
  cases hturn with
  | latched hlatched => exact absurd hlatched (hlive _)
  | halted | reset | retired => simp at h
  | failed hexec hfault =>
    obtain rfl := StepOutcome.fault.inj h
    obtain ⟨hports, hconsole⟩ := execution_of_fault hfault
    refine ⟨?_, hconsole⟩
    simp only [hports]
    rfl

end Machine

namespace Console

inductive Call (console : κ) : κ → Prop
  | write (byte : UInt8) : Call console (writeByte console byte).2
  | read : Call console (readByte console).2
  | ready : Call console (inputReady console).2

/-- Neither direction answers with an error, whatever was called before. -/
def NeverFails (console : κ) : Prop :=
  ∀ later, Relation.ReflTransGen Call console later →
    (∀ byte, (writeByte later byte).1 = .ok ()) ∧ ∃ answer, (readByte later).1 = .ok answer

theorem NeverFails.later {console later : κ} (h : NeverFails console)
    (hcalls : Relation.ReflTransGen Call console later) : NeverFails later :=
  fun last hlast => h last (hcalls.trans hlast)

end Console

theorem BufferedConsole.neverFails {console : BufferedConsole}
    (hwrites : console.failWrites = false) (hreads : console.failReads = false) :
    Console.NeverFails console := by
  intro later hcalls
  -- no call changes whether calls fail
  have hflags : later.failWrites = false ∧ later.failReads = false := by
    induction hcalls with
    | refl => exact ⟨hwrites, hreads⟩
    | @tail last _ _ hcall ih =>
      obtain ⟨ihwrites, ihreads⟩ := ih
      cases hcall with
      | write byte => simp [Console.writeByte, writeByte, ihwrites, ihreads]
      | read =>
        cases hinput : last.input <;>
          simp [Console.readByte, readByte, hinput, ihwrites, ihreads]
      | ready => exact ⟨ihwrites, ihreads⟩
  obtain ⟨hwrites', hreads'⟩ := hflags
  constructor
  · intro byte
    simp [Console.writeByte, writeByte, hwrites']
  · cases hinput : later.input <;> simp [Console.readByte, readByte, hinput, hreads']

namespace PortBank

theorem calls_afterTransmit (value : Word) (console : κ) :
    Relation.ReflTransGen Console.Call console (afterTransmit value console) := by
  unfold afterTransmit
  split
  · exact .single (.write _)
  · exact .refl

theorem calls_receive (bank : PortBank) (value : Word) (console : κ) :
    Relation.ReflTransGen Console.Call console (bank.receive value console).console := by
  have hread : Console.Call console (Console.readByte console).2 := .read
  unfold receive
  split
  · rcases hcall : Console.readByte console with ⟨_ | _ | _, console'⟩
    all_goals
      rw [hcall] at hread
      exact .single hread
  · exact .refl

theorem calls_write (bank : PortBank) (port : Port) (value : Word) (console : κ) :
    Relation.ReflTransGen Console.Call console (bank.write port value console).console := by
  cases port with
  | console =>
    simp only [write, transfer_eq]
    split
    · split
      · exact (calls_afterTransmit value console).trans (calls_receive bank value _)
      · exact calls_afterTransmit value console
    · exact calls_receive bank value console
  | _ => exact .refl

theorem not_transferFails (h : Console.NeverFails console) :
    ¬TransferFails value console cause := by
  cases cause with
  | consoleWrite =>
    rintro ⟨-, e, hwrite⟩
    rw [(h console .refl).1] at hwrite
    contradiction
  | consoleRead =>
    rintro ⟨-, -, e, hread⟩
    obtain ⟨answer, hanswer⟩ := (h _ (calls_afterTransmit value console)).2
    rw [hanswer] at hread
    contradiction

end PortBank

namespace Machine

theorem calls_execution (m : Machine) (console : κ) :
    Relation.ReflTransGen Console.Call console (m.execution console).console := by
  have hx := executes_execution m console
  generalize m.execution console = x at hx
  cases hx with
  | plain => exact .refl
  | @read port =>
    cases port with
    | console => exact .single .ready
    | _ => exact .refl
  | @write port p =>
    rw [Execution.console_ofPortWrite]
    exact PortBank.calls_write m.ports port m.registers.acc console

theorem calls_step (m : Machine) (console : κ) :
    Relation.ReflTransGen Console.Call console (m.step console).console := by
  have hturn := turns_step m console
  generalize m.step console = c at hturn
  cases hturn with
  | latched | halted | reset => exact .refl
  | retired | failed => exact calls_execution m console

theorem step_fault_iff (hlive : ∀ cause, m.runState ≠ .faulted cause) :
    (m.step console).outcome = .fault cause ↔
      (bit 7 m.registers.flags.toNat = 0 ∧ bit 5 m.registers.flags.toNat = 0) ∧
        m.AtConsoleWrite ∧ PortBank.TransferFails m.registers.acc console cause := by
  rw [outcome_eq_fault_iff, or_iff_right (hlive cause), executes_iff_bits hlive, fault_execution]

end Machine

namespace Setting

def Faultless (s : Setting κ) : Prop :=
  (∀ cause, s.machine.runState ≠ .faulted cause) ∧ Console.NeverFails s.console

variable {s : Setting κ}

theorem Faultless.outcome (h : s.Faultless) (cause : Fault) : s.cycle.outcome ≠ .fault cause := by
  intro hfault
  exact PortBank.not_transferFails h.2 ((Machine.step_fault_iff h.1).mp hfault).2.2

theorem Faultless.next (h : s.Faultless) : s.next.Faultless := by
  refine ⟨?_, h.2.later (Machine.calls_step s.machine s.console)⟩
  intro cause hlatched
  have hstate : s.next.machine.runState = s.cycle.outcome.runState := Machine.runState_step _ _
  have hnone := h.outcome
  rw [hstate] at hlatched
  cases houtcome : s.cycle.outcome <;> simp_all [StepOutcome.runState]

theorem Faultless.iterate (h : s.Faultless) (n : Nat) : (Setting.next^[n] s).Faultless := by
  induction n with
  | zero => exact h
  | succ n ih =>
    rw [Function.iterate_succ_apply']
    exact ih.next

end Setting

namespace Machine

/-- A cycle faults if and only if a transfer fails that the accumulator asks for at a write to the
console port. It then leaves all as it was, but for the latch and the derived flags, and calls the
console no further. A console that never fails keeps every run from faulting. -/
theorem faults_precise (m : Machine) (console : κ)
    (hlive : ∀ cause, m.runState ≠ .faulted cause) :
    (∀ cause, (m.step console).outcome = .fault cause ↔
      (bit 7 m.registers.flags.toNat = 0 ∧ bit 5 m.registers.flags.toNat = 0) ∧
        m.AtConsoleWrite ∧ PortBank.TransferFails m.registers.acc console cause) ∧
    (∀ cause, (m.step console).outcome = .fault cause →
      (∃ flags : Word,
        flags.toNat = Numeric.status m.registers.flags.toNat m.registers.acc.toNat ∧
        (m.step console).machine =
          { m with registers := { m.registers with flags }, runState := .faulted cause }) ∧
      (m.step console).console = PortBank.afterFailure m.registers.acc console cause) ∧
    (Console.NeverFails console →
      (∀ n cause, (Setting.next^[n] ⟨m, console⟩).cycle.outcome ≠ .fault cause) ∧
      ∀ keep budget cause, (m.run keep budget console).outcome ≠ .fault cause) := by
  refine ⟨fun cause => step_fault_iff hlive, ?_, ?_⟩
  · intro cause hfault
    obtain ⟨hmachine, hconsole⟩ := step_of_fault hlive hfault
    exact ⟨⟨m.deriveStatus.registers.flags, toNat_derive _ _, hmachine⟩, hconsole⟩
  · intro hconsole
    have hcourse (n : Nat) : (Setting.next^[n] ⟨m, console⟩).Faultless :=
      Setting.Faultless.iterate ⟨hlive, hconsole⟩ n
    refine ⟨fun n cause => (hcourse n).outcome cause, ?_⟩
    intro keep budget cause hfault
    have hrun : (m.run keep budget console).Follows keep ⟨m, console⟩ (budget.getD unlimited) :=
      follows_run _ m console
    have hstop : (m.run keep budget console).outcome ≠ .continuing := by
      simp [hfault]
    exact (hcourse _).outcome cause ((hrun.stopped hstop).trans hfault)

theorem faults_precise_reading :
    let m := (holding #[0x9801]).setAcc 0x2441
    let console : BufferedConsole := { failReads := true }
    (m.step console).outcome = .fault .consoleRead ∧
      (m.step console).machine.memory = m.memory ∧ (m.step console).console.output = #[0x41] ∧
      ∀ keep budget cause,
        (m.run keep budget (BufferedConsole.ofInput [0x42])).outcome ≠ .fault cause := by
  intro m console
  have hlive : ∀ cause, m.runState ≠ .faulted cause := by
    intro cause hlatched
    cases hlatched
  obtain ⟨hiff, hframe, -⟩ := faults_precise m console hlive
  have hsent : PortBank.afterTransmit m.registers.acc console =
      (Console.writeByte console 0x41).2 := by
    have hbyte : m.registers.acc.lowByte = 0x41 := by decide
    rw [PortBank.afterTransmit, if_pos (by decide), hbyte]
  have hfails : PortBank.TransferFails m.registers.acc console .consoleRead :=
    ⟨by decide, fun _ => rfl, .read "input broken", by rw [hsent]; rfl⟩
  have hword : m.AtConsoleWrite := by
    unfold AtConsoleWrite
    decide
  have hfault := (hiff .consoleRead).mpr ⟨by decide, hword, hfails⟩
  obtain ⟨⟨flags, -, hmachine⟩, hconsole⟩ := hframe .consoleRead hfault
  refine ⟨hfault, by rw [hmachine], by rw [hconsole, PortBank.afterFailure, hsent]; rfl, ?_⟩
  exact ((faults_precise m (BufferedConsole.ofInput [0x42]) hlive).2.2
    (BufferedConsole.neverFails rfl rfl)).2

end Machine

end WordMachine
