import WordMachine.Machine.Execution

/-!
# One machine cycle

A cycle fetches a word, derives the status flags, looks at the halt flag, then at the reset flag,
and otherwise executes the word and commits its effects. A latched fault ends a cycle before it
begins.
-/

namespace WordMachine

inductive StepOutcome
  | continuing
  | halted
  | fault (cause : Fault)
  deriving DecidableEq, Repr

structure Cycle (κ : Type) where
  outcome : StepOutcome
  machine : Machine
  console : κ
  notices : List Notice

namespace Machine

def deriveStatus (m : Machine) : Machine :=
  { m with registers :=
    { m.registers with flags := Flag.derive m.registers.flags m.registers.acc } }

@[simp] theorem acc_deriveStatus (m : Machine) :
    m.deriveStatus.registers.acc = m.registers.acc := rfl

def step {κ : Type} [Console κ] (m : Machine) (console : κ) : Cycle κ :=
  match m.runState with
  | .faulted cause => ⟨.fault cause, m, console, []⟩
  | _ =>
    let pc := m.registers.pc
    let word := m.memory.read pc
    let m := m.deriveStatus
    let flags := m.registers.flags
    let start : Notice := .event (.start pc word m.registers.acc flags)
    if Flag.halt.isSet flags then
      ⟨.halted, { m with runState := .halted }, console, [start, .event (.halted pc)]⟩
    else if Flag.reset.isSet flags then
      ⟨.continuing, { m with registers := {}, runState := .running }, console,
        [start, .remark (.resetRequested pc), .event (.reset pc)]⟩
    else
      let x := m.execute (Instruction.decode word) console
      match x.fault with
      | none =>
        ⟨.continuing, { m with ports := x.ports, runState := .running }.commit x.pending,
          x.console, start :: x.notices⟩
      | some cause =>
        ⟨.fault cause, { m with ports := x.ports, runState := .faulted cause }, x.console,
          start :: x.notices ++
            [.remark (.faultLatched cause pc), .event (.fault cause pc)]⟩

theorem step_of_faulted {κ : Type} [Console κ] {m : Machine} {cause : Fault}
    (h : m.runState = .faulted cause) (console : κ) :
    m.step console = ⟨.fault cause, m, console, []⟩ := by
  simp [step, h]

theorem step_of_halt {κ : Type} [Console κ] {m : Machine}
    (h : ∀ cause, m.runState ≠ .faulted cause)
    (halt : Flag.halt.isSet m.registers.flags = true) (console : κ) :
    m.step console = ⟨.halted, { m.deriveStatus with runState := .halted }, console,
      [.event (.start m.registers.pc (m.memory.read m.registers.pc) m.registers.acc
          m.deriveStatus.registers.flags),
        .event (.halted m.registers.pc)]⟩ := by
  have halt' : Flag.halt.isSet m.deriveStatus.registers.flags = true := by
    rw [← halt]
    exact Flag.isSet_derive (by decide) _ _
  cases hr : m.runState with
  | faulted cause => exact absurd hr (h cause)
  | _ => simp [step, hr, halt']

end Machine

end WordMachine
