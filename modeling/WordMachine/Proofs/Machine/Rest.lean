import WordMachine.Proofs.Machine.Hidden
import WordMachine.Proofs.Machine.Histories

/-!
# Machines at rest

A machine that has halted or faulted is at rest: every step and every run answers as the cycle
before did, and leaves machine and console as they are, whatever console it is. A halted machine
shows its halt each time. One with a fault shows nothing, and whatever else its host does to it,
only a reset lets it go on.
-/

namespace WordMachine

namespace Operation

def isCall : Operation → Bool
  | step _ | run .. => true
  | _ => false

def isReset : Operation → Bool
  | reset => true
  | _ => false

end Operation

theorem StepOutcome.runState_injective : Function.Injective StepOutcome.runState := by
  intro outcome outcome' h
  cases outcome <;> cases outcome' <;> simp_all [StepOutcome.runState]

namespace Machine

/-- Steps and runs answer with the outcome and the notices, at every console. A run without any
budget takes no cycle. -/
structure Rests (m : Machine) (outcome : StepOutcome) (notices : List Notice) : Prop where
  step_eq : ∀ {κ : Type} [Console κ] (console : κ),
    m.step console = ⟨outcome, m, console, notices⟩
  run_eq : ∀ {κ : Type} [Console κ] (keep : Notice → Bool) (budget : Option Nat) (console : κ),
    m.run keep budget console =
      if budget = some 0 then ⟨0, .continuing, m, console, #[]⟩
      else ⟨0, outcome, m, console, (notices.filter keep).toArray⟩

variable {m : Machine} {outcome : StepOutcome} {notices : List Notice}

theorem rests_of_step (hstop : outcome ≠ .continuing)
    (hstep : ∀ {κ : Type} [Console κ] (console : κ),
      m.step console = ⟨outcome, m, console, notices⟩) : m.Rests outcome notices := by
  refine ⟨hstep, fun keep budget console => ?_⟩
  by_cases hbudget : budget = some 0
  · rw [if_pos hbudget, hbudget]
    exact run_zero m console
  · rw [if_neg hbudget, run_of_stopped hbudget (by rwa [hstep]), hstep]

namespace Rests

theorem apply_eq (h : m.Rests outcome notices) {o : Operation} (ho : o.isCall = true) :
    o.apply m = m := by
  cases o with
  | step console => exact congrArg Cycle.machine (h.step_eq console)
  | run keep budget console =>
    rw [Operation.apply, h.run_eq]
    split <;> rfl
  | _ => contradiction

theorem operate_eq (h : m.Rests outcome notices) {calls : List Operation}
    (hcalls : ∀ o ∈ calls, o.isCall = true) : m.operate calls = m := by
  refine List.foldlRecOn (motive := (· = m)) calls _ rfl ?_
  rintro t rfl o ho
  exact h.apply_eq (hcalls o ho)

end Rests

theorem rests_of_faulted {cause : Fault} (h : m.runState = .faulted cause) :
    m.Rests (.fault cause) [] :=
  rests_of_step nofun (step_of_faulted h)

theorem faulted_apply {cause : Fault} (h : m.runState = .faulted cause) {o : Operation}
    (ho : o.isReset = false) : (o.apply m).runState = .faulted cause := by
  cases o with
  | step | run => rwa [(rests_of_faulted h).apply_eq rfl]
  | reset => contradiction
  | _ => exact h

theorem faulted_operate {cause : Fault} (h : m.runState = .faulted cause)
    {history : List Operation} (hhistory : ∀ o ∈ history, o.isReset = false) :
    (m.operate history).runState = .faulted cause :=
  List.foldlRecOn (motive := fun t : Machine => t.runState = .faulted cause) history _ h
    fun _ ht o ho => faulted_apply ht (hhistory o ho)

theorem executes_reset (m : Machine) : m.reset.executes = true := by
  have hhalt : Flag.halt.isSet 0 = false := by decide
  have hreset : Flag.reset.isSet 0 = false := by decide
  exact executes_eq_true_iff.mpr ⟨nofun, hhalt, hreset⟩

variable {κ : Type} [Console κ]

omit [Console κ] in
theorem Idle.rests (h : m.Idle) (console : κ) :
    (m.idleCycle console).machine.Rests .halted (m.idleCycle console).notices := by
  refine rests_of_step nofun fun console' => ?_
  have hderived : (m.idleCycle console).machine.deriveStatus = (m.idleCycle console).machine :=
    congrArg (fun t : Machine => { t with runState := .halted }) m.deriveStatus_deriveStatus
  have hstart : (m.idleCycle console).machine.startNotice = m.startNotice := by
    rw [startNotice, hderived]
    rfl
  rw [(h.idleCycle console).step_eq, Machine.idleCycle, hderived, hstart]
  rfl

theorem rests_of_halted {console : κ} (h : (m.step console).outcome = .halted) :
    (m.step console).machine.Rests .halted (m.step console).notices := by
  have hturn := turns_step m console
  generalize hcycle : m.step console = c at h hturn
  cases hturn with
  | halted hlive hhalt => exact Idle.rests ⟨hhalt, hlive⟩ console
  | latched | reset | retired | failed => contradiction

/-- The run state after a cycle tells its outcome. From a halt on, all steps and runs answer with
the same halt; from a fault on with the fault, without a notice, until the machine is reset. They
change neither the machine nor the consoles that they are at. -/
theorem stopped_absorbing (m : Machine) (console : κ) :
    let c := m.step console
    ((c.machine.runState = .running ↔ c.outcome = .continuing) ∧
      (c.machine.runState = .halted ↔ c.outcome = .halted) ∧
      ∀ cause, c.machine.runState = .faulted cause ↔ c.outcome = .fault cause) ∧
    (c.outcome = .halted → ∀ calls : List Operation, (∀ o ∈ calls, o.isCall = true) →
      c.machine.operate calls = c.machine ∧
        (c.machine.operate calls).Rests .halted c.notices) ∧
    (∀ cause, c.outcome = .fault cause →
      (∀ calls : List Operation, (∀ o ∈ calls, o.isCall = true) →
        c.machine.operate calls = c.machine) ∧
      ∀ history : List Operation, (∀ o ∈ history, o.isReset = false) →
        (c.machine.operate history).Rests (.fault cause) [] ∧
          (c.machine.operate history).reset.executes = true) := by
  intro c
  have hstate : c.machine.runState = c.outcome.runState := runState_step m console
  have hiff (outcome : StepOutcome) :
      c.machine.runState = outcome.runState ↔ c.outcome = outcome := by
    rw [hstate]
    exact StepOutcome.runState_injective.eq_iff
  refine ⟨⟨hiff .continuing, hiff .halted, fun cause => hiff (.fault cause)⟩, ?_, ?_⟩
  · intro hhalted calls hcalls
    have hrests := rests_of_halted hhalted
    have hsame := hrests.operate_eq hcalls
    refine ⟨hsame, ?_⟩
    rw [hsame]
    exact hrests
  · intro cause hfault
    have hlatched : c.machine.runState = .faulted cause := (hiff (.fault cause)).mpr hfault
    refine ⟨fun calls hcalls => (rests_of_faulted hlatched).operate_eq hcalls, ?_⟩
    intro history hhistory
    exact ⟨rests_of_faulted (faulted_operate hlatched hhistory), executes_reset _⟩

theorem stopped_absorbing_later :
    let c := ((holding #[0x9801]).setAcc 0x0400).step ({ failReads := true } : BufferedConsole)
    let c' := ((holding #[0xA001]).setFlags 0x0080).step (BufferedConsole.ofInput [])
    let calls : List Operation := [.run (fun _ => true) (some 5) (StreamConsole.ofInput []),
      .step (BufferedConsole.ofInput [0x41])]
    let later := BufferedConsole.ofInput [0x41]
    c.outcome = .fault .consoleRead ∧
      (c.machine.operate calls).step later = ⟨.fault .consoleRead, c.machine, later, []⟩ ∧
      c'.outcome = .halted ∧
      (c'.machine.operate calls).run (fun _ => true) none later =
        ⟨0, .halted, c'.machine, later, c'.notices.toArray⟩ := by
  intro c c' calls later
  have hfault : c.outcome = .fault .consoleRead := by decide
  have hhalted : c'.outcome = .halted := by decide
  have hcalls : ∀ o ∈ calls, o.isCall = true := by simp [calls, Operation.isCall]
  have hresets : ∀ o ∈ calls, o.isReset = false := by simp [calls, Operation.isReset]
  obtain ⟨-, -, hlatched⟩ := stopped_absorbing ((holding #[0x9801]).setAcc 0x0400)
    ({ failReads := true } : BufferedConsole)
  obtain ⟨-, hrests', -⟩ := stopped_absorbing ((holding #[0xA001]).setFlags 0x0080)
    (BufferedConsole.ofInput [])
  obtain ⟨hsame, hrests⟩ := hlatched .consoleRead hfault
  have hstep := (hrests calls hresets).1.step_eq later
  rw [hsame calls hcalls] at hstep
  obtain ⟨hsame', hrests'⟩ := hrests' hhalted calls hcalls
  have hrun := hrests'.run_eq (fun _ => true) none later
  rw [hsame'] at hrun
  refine ⟨hfault, ?_, hhalted, ?_⟩
  · rw [hsame calls hcalls]
    exact hstep
  · rw [hsame']
    simpa using hrun

end Machine

end WordMachine
