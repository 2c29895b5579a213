import WordMachine.Proofs.Machine.Course

/-!
# Twins

Two machines, each at its own console, are twins if they differ in their port banks at most and
what stands behind the ports is related on both sides. A cycle leaves twins if the instruction does
the same for both. Then their runs take the same cycles, end alike and give the same notices.
-/

namespace WordMachine

variable {κ κ' : Type} [Console κ] [Console κ'] {P : PortBank × κ → PortBank × κ' → Prop}

/-- The relation is between what the two executions leave behind the ports. -/
structure Execution.Twins (P : PortBank × κ → PortBank × κ' → Prop) (x : Execution κ)
    (x' : Execution κ') : Prop where
  fault_eq : x'.fault = x.fault
  pending_eq : x'.pending = x.pending
  notices_eq : x'.notices = x.notices
  behind : P (x.ports, x.console) (x'.ports, x'.console)

structure Setting.Twins (P : PortBank × κ → PortBank × κ' → Prop) (s : Setting κ)
    (s' : Setting κ') : Prop where
  machine_eq : s'.machine = s.machine.withPorts s'.machine.ports
  behind : P (s.machine.ports, s.console) (s'.machine.ports, s'.console)

structure Run.Twins (P : PortBank × κ → PortBank × κ' → Prop) (r : Run κ) (r' : Run κ') :
    Prop where
  cycles_eq : r'.cycles = r.cycles
  outcome_eq : r'.outcome = r.outcome
  notices_eq : r'.notices = r.notices
  setting : r.setting.Twins P r'.setting

namespace Machine

theorem commit_withPorts (m : Machine) (bank : PortBank) (p : Pending) :
    (m.withPorts bank).commit p = (m.commit p).withPorts bank := by
  unfold commit
  split <;> rfl

end Machine

namespace Setting

variable {s : Setting κ} {s' : Setting κ'}

def execution (s : Setting κ) : Execution κ := s.machine.execution s.console

namespace Twins

theorem exists_use (h : s.Twins P s') : ∃ u : PortUse,
    s.execution = u.execution s.machine.registers.acc s.machine.ports s.console ∧
      s'.execution = u.execution s.machine.registers.acc s'.machine.ports s'.console := by
  obtain ⟨u, hu⟩ := s.machine.exists_use_current
  refine ⟨u, hu.execution_eq s.machine.ports s.console, ?_⟩
  rw [execution, h.machine_eq]
  exact hu.execution_eq s'.machine.ports s'.console

theorem cycle (h : s.Twins P s')
    (hexec : s.machine.executes = true → s.execution.Twins P s'.execution) :
    s'.cycle.outcome = s.cycle.outcome ∧ s'.cycle.notices = s.cycle.notices ∧
      s.next.Twins P s'.next := by
  obtain ⟨m, console⟩ := s
  obtain ⟨m', console'⟩ := s'
  obtain ⟨hm, hbehind⟩ := h
  simp only at hm hbehind hexec
  generalize m'.ports = bank at hm hbehind
  subst hm
  have hturn := Machine.turns_step m console
  simp only [Setting.cycle, Setting.next]
  generalize m.step console = c at hturn
  cases hturn with
  | latched hlatched =>
    rw [Machine.step_of_turns (m := m.withPorts bank) (.latched hlatched)]
    exact ⟨rfl, rfl, rfl, hbehind⟩
  | halted hlive hhalt =>
    rw [Machine.step_of_turns (m := m.withPorts bank) (.halted hlive hhalt)]
    exact ⟨rfl, rfl, rfl, hbehind⟩
  | reset hlive hhalt hreset =>
    rw [Machine.step_of_turns (m := m.withPorts bank) (.reset hlive hhalt hreset)]
    exact ⟨rfl, rfl, rfl, hbehind⟩
  | retired hexecutes hfault =>
    obtain ⟨hfault', hpending, hnotices, hbehind⟩ := hexec hexecutes
    rw [Machine.step_of_turns (m := m.withPorts bank) (.retired hexecutes (hfault'.trans hfault))]
    refine ⟨rfl, congrArg (m.startNotice :: ·) hnotices, ?_, ?_⟩
    · simp only [Machine.ports_commit]
      rw [← Machine.commit_withPorts]
      exact congrArg _ hpending
    · simp only [Machine.ports_commit]
      exact hbehind
  | failed hexecutes hfault =>
    obtain ⟨hfault', hpending, hnotices, hbehind⟩ := hexec hexecutes
    rw [Machine.step_of_turns (m := m.withPorts bank) (.failed hexecutes (hfault'.trans hfault))]
    exact ⟨rfl, congrArg (fun notices => m.startNotice :: notices ++ _) hnotices, rfl, hbehind⟩

theorem run_some (h : s.Twins P s') (keep : Notice → Bool) (budget : Nat)
    (hexec : ∀ t ∈ s.course (s.machine.run keep (some budget) s.console).steps,
      ∀ t' : Setting κ', t.Twins P t' → t.machine.executes = true →
        t.execution.Twins P t'.execution) :
    (s.machine.run keep (some budget) s.console).Twins P
      (s'.machine.run keep (some budget) s'.console) := by
  induction budget generalizing s s' with
  | zero => exact ⟨rfl, rfl, rfl, h⟩
  | succ budget ih =>
    by_cases hcontinue : s.cycle.outcome = .continuing
    · have hsteps : (s.machine.run keep (some (budget + 1)) s.console).steps =
          (s.next.machine.run keep (some budget) s.next.console).steps + 1 := by
        rw [Machine.run_succ_of_continuing hcontinue]
        exact Run.steps_succ _ _
      rw [hsteps, Setting.course_succ, List.forall_mem_cons] at hexec
      obtain ⟨houtcome, hnotices, hnext⟩ := h.cycle (hexec.1 s' h)
      obtain ⟨hcycles, houtcome', hnotices', hsetting⟩ := ih hnext hexec.2
      rw [Machine.run_succ_of_continuing hcontinue,
        Machine.run_succ_of_continuing (houtcome.trans hcontinue)]
      refine ⟨congrArg (· + 1) hcycles, houtcome', ?_, hsetting⟩
      exact congrArg₂ (fun new old => (List.filter keep new).toArray ++ old) hnotices hnotices'
    · have hsteps : (s.machine.run keep (some (budget + 1)) s.console).steps = 1 := by
        rw [Machine.run_succ_of_stopped hcontinue]
        exact if_neg hcontinue
      rw [hsteps, Setting.course_succ, List.forall_mem_cons] at hexec
      obtain ⟨houtcome, hnotices, hnext⟩ := h.cycle (hexec.1 s' h)
      have hstop' : s'.cycle.outcome ≠ .continuing := by rwa [houtcome]
      rw [Machine.run_succ_of_stopped hcontinue, Machine.run_succ_of_stopped hstop']
      exact ⟨rfl, houtcome, congrArg (fun new => (List.filter keep new).toArray) hnotices, hnext⟩

theorem run (h : s.Twins P s') (keep : Notice → Bool) (budget : Option Nat)
    (hexec : ∀ t ∈ s.course (s.machine.run keep budget s.console).steps, ∀ t' : Setting κ',
      t.Twins P t' → t.machine.executes = true → t.execution.Twins P t'.execution) :
    (s.machine.run keep budget s.console).Twins P (s'.machine.run keep budget s'.console) :=
  h.run_some keep (budget.getD Machine.unlimited) hexec

end Twins

end Setting

end WordMachine
