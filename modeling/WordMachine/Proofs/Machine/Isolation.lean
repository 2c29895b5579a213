import WordMachine.Console.Stream
import WordMachine.Proofs.Machine.Twins

/-!
# Isolation

The environment comes in through the switches, which port 0 shows, and through the console at port 1.
A run that leaves no trace of either and no fault is the same under other switches and at another
console, of whatever kind, and calls neither console.
-/

namespace WordMachine

/-- With the event something of the environment may have come in. A fault is such an event, for a
transfer that fails leaves no other trace. -/
def Event.letsIn : Event → Bool
  | portRead port _ => port = .switches ∨ port = .console
  | portWrite port _ => port = .console
  | fault _ _ => true
  | _ => false

def Run.trace {κ : Type} (r : Run κ) : List Event := r.notices.toList.filterMap Notice.event?

variable {κ κ' : Type} [Console κ] [Console κ'] {m : Machine} {console : κ} {console' : κ'}
  {switches : Word}

theorem Run.Follows.mem_trace {r : Run κ} {keep : Notice → Bool} {s t : Setting κ} {budget : Nat}
    {e : Event} (h : r.Follows keep s budget) (hkeep : keep (.event e) = true)
    (ht : t ∈ s.course r.steps) (he : .event e ∈ t.cycle.notices) : e ∈ r.trace := by
  refine List.mem_filterMap.mpr ⟨.event e, ?_, rfl⟩
  rw [h.notices_eq]
  exact List.mem_flatMap.mpr ⟨t, ht, List.mem_filter.mpr ⟨he, hkeep⟩⟩

def Untouched (switches : Word) (console : κ) (console' : κ') (x : PortBank × κ)
    (x' : PortBank × κ') : Prop :=
  x'.1 = ⟨switches, x.1.leds, x.1.received⟩ ∧ x.2 = console ∧ x'.2 = console'

theorem PortUse.twins_of_isolated {u : PortUse} {acc : Word} {bank : PortBank}
    (hfault : (u.execution acc bank console).fault = .none)
    (hevents : ∀ e, .event e ∈ (u.execution acc bank console).notices → e.letsIn = false) :
    (u.execution acc bank console).Twins (Untouched switches console console')
      (u.execution acc ⟨switches, bank.leds, bank.received⟩ console') := by
  cases u with
  | none p => exact ⟨rfl, rfl, rfl, rfl, rfl, rfl⟩
  | read port p =>
    have hport := hevents (.portRead port (bank.read port console).1) (List.mem_singleton_self _)
    cases port with
    | switches | console => contradiction
    | _ => exact ⟨rfl, rfl, rfl, rfl, rfl, rfl⟩
  | write port p =>
    cases port with
    | console =>
      cases hanswer : (bank.write .console acc console).answer with
      | error cause =>
        rw [PortUse.execution, Execution.ofPortWrite_of_error hanswer] at hfault
        contradiction
      | ok answer =>
        rw [PortUse.execution, Execution.ofPortWrite_of_ok hanswer] at hevents
        have hport := hevents (.portWrite .console acc)
          (List.mem_append_right _ (List.mem_singleton_self _))
        contradiction
    | _ => exact ⟨rfl, rfl, rfl, rfl, rfl, rfl⟩

omit [Console κ] [Console κ'] in
theorem Run.Twins.eq_of_untouched {r : Run κ} {r' : Run κ'}
    (h : r.Twins (Untouched switches console console') r') : r.console = console ∧
      r' = ⟨r.cycles, r.outcome, r.machine.setSwitches switches, console', r.notices⟩ := by
  obtain ⟨cycles, outcome, machine, console', notices⟩ := r'
  obtain ⟨rfl, rfl, rfl, hmachine, hbank, hconsole, rfl⟩ := h
  refine ⟨hconsole, ?_⟩
  have hmachine' : machine = r.machine.setSwitches switches :=
    hmachine.trans (congrArg r.machine.withPorts hbank)
  subst hmachine'
  rfl

namespace Machine

theorem isolated_of_step (hexec : m.executes = true)
    (hevents : ∀ e, .event e ∈ (m.step console).notices → e.letsIn = false) :
    (m.execution console).fault = none ∧
      ∀ e, .event e ∈ (m.execution console).notices → e.letsIn = false := by
  cases hfault : (m.execution console).fault with
  | none =>
    rw [step_of_turns (.retired hexec hfault)] at hevents
    exact ⟨rfl, fun e he => hevents e (List.mem_cons_of_mem _ he)⟩
  | some cause =>
    rw [step_of_turns (.failed hexec hfault)] at hevents
    have hraised := hevents (.fault cause m.registers.pc) (by simp)
    contradiction

/-- A run whose trace lets nothing in is the same under other switches and at another console. Both
consoles are left as they are. -/
theorem isolated_runs_agree (keep : Notice → Bool) (hkeep : ∀ e, keep (.event e) = true)
    (budget : Option Nat) (m : Machine) (console : κ)
    (htrace : ∀ e ∈ (m.run keep budget console).trace, e.letsIn = false)
    (switches : Word) (console' : κ') :
    let r := m.run keep budget console
    r.console = console ∧
      (m.setSwitches switches).run keep budget console' =
        ⟨r.cycles, r.outcome, r.machine.setSwitches switches, console', r.notices⟩ := by
  intro r
  have hrun : r.Follows keep ⟨m, console⟩ (budget.getD unlimited) := follows_run _ m console
  have hstart : Setting.Twins (Untouched switches console console') ⟨m, console⟩
      ⟨m.setSwitches switches, console'⟩ := ⟨rfl, rfl, rfl, rfl⟩
  have hexec : ∀ t ∈ Setting.course ⟨m, console⟩ r.steps, ∀ t' : Setting κ',
      t.Twins (Untouched switches console console') t' → t.machine.executes = true →
        t.execution.Twins (Untouched switches console console') t'.execution := by
    intro t ht t' htwins hexec
    obtain ⟨hfault, hevents⟩ := isolated_of_step hexec
      fun e he => htrace e (hrun.mem_trace (hkeep e) ht he)
    obtain ⟨u, hu, hu'⟩ := htwins.exists_use
    obtain ⟨hbank, hconsole, hconsole'⟩ := htwins.behind
    simp only at hbank hconsole hconsole'
    change t.execution.fault = none at hfault
    change ∀ e, .event e ∈ t.execution.notices → e.letsIn = false at hevents
    rw [hu, hconsole] at hfault hevents
    rw [hu, hu', hbank, hconsole, hconsole']
    exact PortUse.twins_of_isolated hfault hevents
  exact (hstart.run keep budget hexec).eq_of_untouched

theorem isolated_runs_agree_halting :
    let m := holding #[0xA005, 0x9800, 0x8802, 0xA080, 0xE001]
    let keep : Notice → Bool := fun _ => true
    let r := m.run keep (some 9) (BufferedConsole.ofInput [0x41])
    let r' := (m.setSwitches 7).run keep (some 9) (StreamConsole.ofInput [])
    r'.outcome = .halted ∧ r'.notices = r.notices ∧
      r.console = BufferedConsole.ofInput [0x41] := by
  intro m keep r r'
  have houtcome : r.outcome = .halted := by decide
  have htrace : ∀ e ∈ r.trace, e.letsIn = false := by decide
  obtain ⟨hconsole, hrun⟩ := isolated_runs_agree keep (fun _ => rfl) (some 9) m
    (BufferedConsole.ofInput [0x41]) htrace 7 (StreamConsole.ofInput [])
  change r' = _ at hrun
  rw [hrun]
  exact ⟨houtcome, rfl, hconsole⟩

end Machine

end WordMachine
