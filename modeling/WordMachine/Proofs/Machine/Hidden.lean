import WordMachine.Proofs.Machine.Twins

/-!
# State that no program sees

The lights cannot be read back, the received register shows its low byte only, and the status flags
are derived anew before anything looks at them. Machines that differ in no more than this take the
same cycles at the same console, and from the first cycle on their flags are equal.
-/

namespace WordMachine

variable {κ : Type} [Console κ]

/-- The lights may differ, and what stands above the low byte of the received register. -/
structure PortBank.Resembles (bank bank' : PortBank) : Prop where
  switches_eq : bank'.switches = bank.switches
  received_eq : bank'.received &&& 0x00FF = bank.received &&& 0x00FF

/-- All is equal but what the ports hide and the status flags. -/
structure Machine.Resembles (m m' : Machine) : Prop where
  pc_eq : m'.registers.pc = m.registers.pc
  acc_eq : m'.registers.acc = m.registers.acc
  flags_eq : m'.registers.flags &&& ~~~Flag.statusMask = m.registers.flags &&& ~~~Flag.statusMask
  memory_eq : m'.memory = m.memory
  ports : m.ports.Resembles m'.ports
  runState_eq : m'.runState = m.runState

structure PortTransfer.Resembles (t t' : PortTransfer κ) : Prop where
  answer_eq : t'.answer = t.answer
  bank : t.bank.Resembles t'.bank
  console_eq : t'.console = t.console
  remarks_eq : t'.remarks = t.remarks

def Unseen (x x' : PortBank × κ) : Prop := x.1.Resembles x'.1 ∧ x'.2 = x.2

namespace PortBank.Resembles

variable {bank bank' : PortBank}

theorem read (h : bank.Resembles bank') (port : Port) (console : κ) :
    bank'.read port console = bank.read port console := by
  cases port with
  | switches => simp only [PortBank.read, h.switches_eq]
  | console => simp only [PortBank.read, h.received_eq]
  | _ => rfl

theorem receive (h : bank.Resembles bank') (value : Word) (console : κ) :
    (bank.receive value console).Resembles (bank'.receive value console) := by
  unfold PortBank.receive
  split
  · rcases Console.readByte console with ⟨_ | _ | byte, console'⟩
    · exact ⟨rfl, h, rfl, rfl⟩
    · exact ⟨rfl, ⟨h.switches_eq, rfl⟩, rfl, rfl⟩
    · exact ⟨rfl, ⟨h.switches_eq, rfl⟩, rfl, rfl⟩
  · exact ⟨rfl, h, rfl, rfl⟩

theorem write (h : bank.Resembles bank') (port : Port) (value : Word) (console : κ) :
    (bank.write port value console).Resembles (bank'.write port value console) := by
  cases port with
  | switches => exact ⟨rfl, ⟨h.switches_eq, h.received_eq⟩, rfl, rfl⟩
  | console =>
    simp only [PortBank.write, PortBank.transfer]
    split
    · rcases Console.writeByte console value.lowByte with ⟨_ | _, console'⟩
      · exact ⟨rfl, h, rfl, rfl⟩
      · exact h.receive value console'
    · exact h.receive value console
  | _ => exact ⟨rfl, h, rfl, rfl⟩

theorem twins (h : bank.Resembles bank') (u : PortUse) (acc : Word) (console : κ) :
    (u.execution acc bank console).Twins Unseen (u.execution acc bank' console) := by
  cases u with
  | none p => exact ⟨rfl, rfl, rfl, h, rfl⟩
  | read port p =>
    simp only [PortUse.execution, Execution.ofPortRead, h.read]
    exact ⟨rfl, rfl, rfl, h, rfl⟩
  | write port p =>
    obtain ⟨hanswer, hbank, hconsole, hremarks⟩ := h.write port acc console
    cases hwrite : (bank.write port acc console).answer with
    | error cause =>
      rw [PortUse.execution, PortUse.execution, Execution.ofPortWrite_of_error hwrite,
        Execution.ofPortWrite_of_error (hanswer.trans hwrite), hremarks]
      exact ⟨rfl, rfl, rfl, hbank, hconsole⟩
    | ok answer =>
      rw [PortUse.execution, PortUse.execution, Execution.ofPortWrite_of_ok hwrite,
        Execution.ofPortWrite_of_ok (hanswer.trans hwrite), hremarks]
      exact ⟨rfl, rfl, rfl, hbank, hconsole⟩

end PortBank.Resembles

namespace Machine

variable {m m' : Machine} {console : κ}

theorem deriveStatus_deriveStatus (m : Machine) : m.deriveStatus.deriveStatus = m.deriveStatus := by
  simp only [deriveStatus, Flag.derive_derive]

theorem step_deriveStatus (hlive : ∀ cause, m.runState ≠ .faulted cause) (console : κ) :
    m.deriveStatus.step console = m.step console := by
  have hexecution : m.deriveStatus.execution console = m.execution console := by
    rw [execution, deriveStatus_deriveStatus]
    rfl
  have hstart : m.deriveStatus.startNotice = m.startNotice := by
    rw [startNotice, deriveStatus_deriveStatus]
    rfl
  have hcommit (ports : PortBank) (p : Pending) :
      ({ m.deriveStatus with ports := ports, runState := .running } : Machine).commit p =
        ({ m with ports := ports, runState := .running } : Machine).commit p := by
    unfold commit
    split <;> rfl
  have hkept {f : Flag} (hf : Flag.statusMask &&& f.mask = 0) :
      f.isSet m.deriveStatus.registers.flags = f.isSet m.registers.flags :=
    Flag.isSet_derive hf _ _
  rw [step_of_live hlive, step_of_live (m := m.deriveStatus) hlive, hexecution, hstart,
    hkept (by decide), hkept (by decide), deriveStatus_deriveStatus]
  simp only [hcommit]
  rfl

namespace Resembles

theorem deriveStatus_eq (h : m.Resembles m') :
    m'.deriveStatus = m.deriveStatus.withPorts m'.ports := by
  obtain ⟨⟨pc, acc, flags⟩, memory, ports, runState⟩ := m
  obtain ⟨⟨pc', acc', flags'⟩, memory', ports', runState'⟩ := m'
  obtain ⟨rfl, rfl, hflags, rfl, -, rfl⟩ := h
  simp only at hflags
  simp only [deriveStatus, withPorts, Flag.derive, hflags]

omit [Console κ] in
theorem of_twins {s s' : Setting κ} (h : s.Twins Unseen s') : s.machine.Resembles s'.machine := by
  obtain ⟨hmachine, hports, -⟩ := h
  rw [hmachine]
  exact ⟨rfl, rfl, rfl, rfl, hports, rfl⟩

end Resembles

end Machine

namespace Setting

variable {s s' : Setting κ}

theorem Twins.cycle_unseen (h : s.Twins Unseen s') :
    s'.cycle.outcome = s.cycle.outcome ∧ s'.cycle.notices = s.cycle.notices ∧
      s.next.Twins Unseen s'.next := by
  refine h.cycle fun _ => ?_
  obtain ⟨u, hu, hu'⟩ := h.exists_use
  obtain ⟨hbank, hconsole⟩ := h.behind
  simp only at hbank hconsole
  rw [hu, hu', hconsole]
  exact hbank.twins u _ _

theorem cycle_of_resembles {m m' : Machine} (h : m.Resembles m')
    (hlive : ∀ cause, m.runState ≠ .faulted cause) (console : κ) :
    (m'.step console).outcome = (m.step console).outcome ∧
      (m'.step console).notices = (m.step console).notices ∧
      (Setting.next ⟨m, console⟩).Twins Unseen (Setting.next ⟨m', console⟩) := by
  have hlive' : ∀ cause, m'.runState ≠ .faulted cause := by
    rw [h.runState_eq]
    exact hlive
  have hderived : Setting.Twins Unseen ⟨m.deriveStatus, console⟩ ⟨m'.deriveStatus, console⟩ :=
    ⟨h.deriveStatus_eq, h.ports, rfl⟩
  have hcycle := hderived.cycle_unseen
  simp only [Setting.next, Setting.cycle, Machine.step_deriveStatus hlive,
    Machine.step_deriveStatus hlive'] at hcycle
  exact hcycle

theorem Twins.iterate_unseen (h : s.Twins Unseen s') (n : Nat) :
    (Setting.next^[n] s).Twins Unseen (Setting.next^[n] s') := by
  induction n with
  | zero => exact h
  | succ n ih =>
    rw [Function.iterate_succ_apply', Function.iterate_succ_apply']
    exact ih.cycle_unseen.2.2

theorem iterate_of_faulted {cause : Fault} (h : s.machine.runState = .faulted cause) (n : Nat) :
    Setting.next^[n] s = s :=
  Function.iterate_fixed (by rw [next, cycle, Machine.step_of_faulted h]) n

/-- What the cycles answer is the same on both sides, and so is the console that they find. -/
def Accords (s s' : Setting κ) : Prop :=
  ∀ n, (Setting.next^[n] s').cycle.outcome = (Setting.next^[n] s).cycle.outcome ∧
    (Setting.next^[n] s').cycle.notices = (Setting.next^[n] s).cycle.notices ∧
    (Setting.next^[n] s').console = (Setting.next^[n] s).console

end Setting

theorem Run.Follows.of_accords {r : Run κ} {keep : Notice → Bool} {s s' : Setting κ} {budget : Nat}
    (h : r.Follows keep s budget) (hcycles : s.Accords s') :
    Run.Follows { r with machine := (Setting.next^[r.steps] s').machine } keep s' budget :=
  h.transfer (fun i _ => (hcycles i).1) (fun i _ => (hcycles i).2.1) (hcycles r.steps).2.2

namespace Machine

namespace Resembles

theorem twins_succ (h : m.Resembles m') (hlive : ∀ cause, m.runState ≠ .faulted cause)
    (console : κ) (n : Nat) :
    (Setting.next^[n + 1] ⟨m, console⟩).Twins Unseen (Setting.next^[n + 1] ⟨m', console⟩) :=
  (Setting.cycle_of_resembles h hlive console).2.2.iterate_unseen n

theorem iterate (h : m.Resembles m') (console : κ) :
    Setting.Accords ⟨m, console⟩ ⟨m', console⟩ ∧ ∀ n,
      (Setting.next^[n] ⟨m, console⟩).machine.Resembles
        (Setting.next^[n] ⟨m', console⟩).machine := by
  by_cases hlatched : ∃ cause, m.runState = .faulted cause
  · obtain ⟨cause, hlatched⟩ := hlatched
    have hlatched' : m'.runState = .faulted cause := h.runState_eq.trans hlatched
    refine ⟨fun n => ?_, fun n => ?_⟩ <;>
      rw [Setting.iterate_of_faulted (s := ⟨m, console⟩) hlatched,
        Setting.iterate_of_faulted (s := ⟨m', console⟩) hlatched']
    · simp only [Setting.cycle, step_of_faulted hlatched, step_of_faulted hlatched', and_self]
    · exact h
  · have hlive : ∀ cause, m.runState ≠ .faulted cause := by simpa using hlatched
    constructor
    · intro n
      cases n with
      | zero =>
        obtain ⟨houtcome, hnotices, -⟩ := Setting.cycle_of_resembles h hlive console
        exact ⟨houtcome, hnotices, rfl⟩
      | succ n =>
        have htwins := h.twins_succ hlive console n
        obtain ⟨houtcome, hnotices, -⟩ := htwins.cycle_unseen
        exact ⟨houtcome, hnotices, htwins.behind.2⟩
    · intro n
      cases n with
      | zero => exact h
      | succ n => exact .of_twins (h.twins_succ hlive console n)

end Resembles

/-- What no program sees does not matter. The cycles answer the same, at the same console, and keep
all alike that can be seen of the machine; so do runs. If no fault is latched, the registers are
equal from the first cycle on. -/
theorem unseen_state_immaterial (m m' : Machine) (h : m.Resembles m') (console : κ) :
    (∀ n, let s := Setting.next^[n] ⟨m, console⟩
      let s' := Setting.next^[n] ⟨m', console⟩
      s'.cycle.outcome = s.cycle.outcome ∧ s'.cycle.notices = s.cycle.notices ∧
        s'.console = s.console ∧ s.machine.Resembles s'.machine) ∧
    ((∀ cause, m.runState ≠ .faulted cause) → ∀ n,
      (Setting.next^[n + 1] ⟨m', console⟩).machine.registers =
        (Setting.next^[n + 1] ⟨m, console⟩).machine.registers) ∧
    (∀ keep budget, let r := m.run keep budget console
      ∃ machine, r.machine.Resembles machine ∧
        m'.run keep budget console = { r with machine }) := by
  obtain ⟨haccords, hresembles⟩ := h.iterate console
  refine ⟨?_, ?_, ?_⟩
  · intro n
    obtain ⟨houtcome, hnotices, hconsole⟩ := haccords n
    exact ⟨houtcome, hnotices, hconsole, hresembles n⟩
  · intro hlive n
    rw [(h.twins_succ hlive console n).machine_eq]
    rfl
  · intro keep budget r
    have hrun : r.Follows keep ⟨m, console⟩ (budget.getD unlimited) := follows_run _ m console
    have hrun' : (m'.run keep budget console).Follows keep ⟨m', console⟩
        (budget.getD unlimited) := follows_run _ m' console
    refine ⟨_, ?_, hrun'.unique (hrun.of_accords haccords)⟩
    change r.setting.machine.Resembles _
    rw [hrun.setting_eq]
    exact hresembles r.steps

theorem unseen_state_immaterial_shown :
    let m := holding #[0xF001, 0x9800, 0x8801, 0xA080, 0xE001]
    let m' : Machine := { m with
      registers := { m.registers with flags := 0x000E }
      ports := { m.ports with leds := 0x1234, received := 0xAB00 } }
    let console := BufferedConsole.ofInput [0x41]
    let r := m.run (fun _ => true) (some 9) console
    let r' := m'.run (fun _ => true) (some 9) console
    r'.cycles = 5 ∧ r'.outcome = .halted ∧ r'.notices = r.notices ∧
      (m'.step console).machine.registers = (m.step console).machine.registers := by
  intro m m' console r r'
  have hcycles : r.cycles = 5 := by decide
  have houtcome : r.outcome = .halted := by decide
  have hresembles : m.Resembles m' := ⟨rfl, rfl, by decide, rfl, ⟨rfl, by decide⟩, rfl⟩
  have hlive : ∀ cause, m.runState ≠ .faulted cause := by
    intro cause hlatched
    cases hlatched
  obtain ⟨-, hregisters, hruns⟩ := unseen_state_immaterial m m' hresembles console
  obtain ⟨machine, -, hrun⟩ := hruns (fun _ => true) (some 9)
  change r' = _ at hrun
  rw [hrun]
  exact ⟨hcycles, houtcome, rfl, hregisters hlive 0⟩

end Machine

end WordMachine
