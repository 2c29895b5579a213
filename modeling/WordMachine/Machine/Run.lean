import WordMachine.Machine.Cycle

/-!
# Runs

A run repeats cycles until the machine halts or faults or the budget is spent. Only executed and
reset cycles count against it. Of the notices, a run keeps those that its reader asked for.
-/

namespace WordMachine

structure Run (κ : Type) where
  cycles : Nat
  outcome : StepOutcome
  machine : Machine
  console : κ
  notices : Array Notice

namespace Machine

variable {κ : Type} [Console κ]

/-- `cycles` and `kept` are those of the cycles before. -/
def runFrom (keep : Notice → Bool) :
    (budget cycles : Nat) → Machine → κ → (kept : Array Notice) → Run κ
  | 0, cycles, m, console, kept => ⟨cycles, .continuing, m, console, kept⟩
  | budget + 1, cycles, m, console, kept =>
    match m.step console with
    | ⟨.continuing, m, console, new⟩ =>
      runFrom keep budget (cycles + 1) m console (kept.appendList (new.filter keep))
    | ⟨outcome, m, console, new⟩ =>
      ⟨cycles, outcome, m, console, kept.appendList (new.filter keep)⟩

/-- The cycles of a run without a budget are counted in sixty-four bits. -/
def unlimited : Nat := UInt64.size

def run (keep : Notice → Bool) (budget : Option Nat) (m : Machine) (console : κ) : Run κ :=
  m.runFrom keep (budget.getD unlimited) 0 console #[]

theorem runFrom_of_continuing {keep : Notice → Bool} {m : Machine} {console : κ}
    (h : (m.step console).outcome = .continuing) (budget cycles : Nat) (kept : Array Notice) :
    m.runFrom keep (budget + 1) cycles console kept =
      (m.step console).machine.runFrom keep budget (cycles + 1) (m.step console).console
        (kept.appendList ((m.step console).notices.filter keep)) := by
  rcases hs : m.step console with ⟨outcome, m', console', new⟩
  obtain rfl : outcome = .continuing := by simpa [hs] using h
  simp [runFrom, hs]

theorem runFrom_of_stopped {keep : Notice → Bool} {m : Machine} {console : κ}
    (h : (m.step console).outcome ≠ .continuing) (budget cycles : Nat) (kept : Array Notice) :
    m.runFrom keep (budget + 1) cycles console kept =
      ⟨cycles, (m.step console).outcome, (m.step console).machine, (m.step console).console,
        kept.appendList ((m.step console).notices.filter keep)⟩ := by
  rcases hs : m.step console with ⟨outcome, m', console', new⟩
  have ho : outcome ≠ .continuing := by simpa [hs] using h
  cases outcome <;> simp_all [runFrom]

end Machine

end WordMachine
