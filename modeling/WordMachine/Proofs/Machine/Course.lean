import Mathlib.Data.List.Iterate
import WordMachine.Console.Buffered
import WordMachine.Machine.Run
import WordMachine.Proofs.Machine.Cycles

/-!
# The course of a machine

A machine at its console takes one cycle after the other, and no cycle ends this: a stopped machine
stops again. A run follows the course as far as its budget and the first cycle that stops. What a
run answers is determined by that, so runs can be cut in two and budgets can grow.
-/

namespace WordMachine

/-- A machine and its console between two cycles. -/
structure Setting (κ : Type) where
  machine : Machine
  console : κ

namespace Setting

variable {κ : Type} [Console κ]

def cycle (s : Setting κ) : Cycle κ := s.machine.step s.console

def next (s : Setting κ) : Setting κ := ⟨s.cycle.machine, s.cycle.console⟩

def course (s : Setting κ) (n : Nat) : List (Setting κ) := List.iterate next s n

theorem course_succ (s : Setting κ) (n : Nat) : s.course (n + 1) = s :: s.next.course n := rfl

theorem cycle_of_stopped {s : Setting κ} (hstop : s.cycle.outcome ≠ .continuing) :
    s.next.cycle.outcome = s.cycle.outcome ∧ s.next.next = s.next := by
  obtain ⟨houtcome, hmachine, hconsole⟩ := Machine.step_of_stopped hstop s.cycle.console
  exact ⟨houtcome, congrArg₂ Setting.mk hmachine hconsole⟩

theorem flatMap_course_congr {α : Type} {f : Setting κ → List α} {s s' : Setting κ} {n : Nat}
    (h : ∀ i < n, f (next^[i] s') = f (next^[i] s)) :
    (s'.course n).flatMap f = (s.course n).flatMap f := by
  induction n generalizing s s' with
  | zero => rfl
  | succ n ih =>
    have hrest : (s'.next.course n).flatMap f = (s.next.course n).flatMap f :=
      ih fun i hi => h (i + 1) (Nat.succ_lt_succ hi)
    have hhead : f s' = f s := h 0 n.succ_pos
    rw [course_succ, course_succ, List.flatMap_cons, List.flatMap_cons, hrest, hhead]

theorem course_of_next_eq {s : Setting κ} (h : s.next = s) (n : Nat) :
    s.course n = List.replicate n s := by
  induction n with
  | zero => rfl
  | succ n ih => rw [course_succ, h, ih, List.replicate_succ]

end Setting

namespace Run

variable {κ : Type} [Console κ]

def setting (r : Run κ) : Setting κ := ⟨r.machine, r.console⟩

/-- The cycles that were begun. The one that stops a run is not among those it counts. -/
def steps (r : Run κ) : Nat := if r.outcome = .continuing then r.cycles else r.cycles + 1

omit [Console κ] in
theorem steps_succ (r : Run κ) (notices : Array Notice) :
    Run.steps { r with cycles := r.cycles + 1, notices := notices } = r.steps + 1 := by
  simp only [steps]
  split <;> rfl

omit [Console κ] in
theorem cycles_le_steps (r : Run κ) : r.cycles ≤ r.steps := by
  unfold steps
  split <;> omega

omit [Console κ] in
theorem cycles_lt_steps {r : Run κ} (hstop : r.outcome ≠ .continuing) : r.cycles < r.steps := by
  rw [steps, if_neg hstop]
  exact Nat.lt_succ_self _

structure Follows (r : Run κ) (keep : Notice → Bool) (s : Setting κ) (budget : Nat) : Prop where
  cycles_le : r.cycles ≤ budget
  continuing_iff : r.outcome = .continuing ↔ r.cycles = budget
  continued : ∀ i < r.cycles, (Setting.next^[i] s).cycle.outcome = .continuing
  stopped : r.outcome ≠ .continuing → (Setting.next^[r.cycles] s).cycle.outcome = r.outcome
  setting_eq : r.setting = Setting.next^[r.steps] s
  notices_eq : r.notices.toList = (s.course r.steps).flatMap fun t => t.cycle.notices.filter keep

variable {keep : Notice → Bool} {s : Setting κ} {budget budget' : Nat} {r r' : Run κ}

namespace Follows

theorem cycles_lt (h : r.Follows keep s budget) (hstop : r.outcome ≠ .continuing) :
    r.cycles < budget :=
  lt_of_le_of_ne h.cycles_le (mt h.continuing_iff.mpr hstop)

theorem cycles_eq {k : Nat} (h : r.Follows keep s budget)
    (hcontinued : ∀ i < k, (Setting.next^[i] s).cycle.outcome = .continuing)
    (hstop : (Setting.next^[k] s).cycle.outcome ≠ .continuing) (hk : k < budget) :
    r.cycles = k := by
  rcases Nat.lt_trichotomy r.cycles k with hlt | heq | hgt
  · have hstopped : r.outcome ≠ .continuing := by
      rw [Ne, h.continuing_iff]
      omega
    exact absurd ((h.stopped hstopped).symm.trans (hcontinued _ hlt)) hstopped
  · exact heq
  · exact absurd (h.continued k hgt) hstop

theorem unique (h : r.Follows keep s budget) (h' : r'.Follows keep s budget) : r = r' := by
  have hcycles : r.cycles = r'.cycles := by
    by_cases hcontinue : r.outcome = .continuing
    · by_cases hcontinue' : r'.outcome = .continuing
      · rw [h.continuing_iff.mp hcontinue, h'.continuing_iff.mp hcontinue']
      · have hstop : (Setting.next^[r'.cycles] s).cycle.outcome ≠ .continuing := by
          rwa [h'.stopped hcontinue']
        exact h.cycles_eq h'.continued hstop (h'.cycles_lt hcontinue')
    · have hstop : (Setting.next^[r.cycles] s).cycle.outcome ≠ .continuing := by
        rwa [h.stopped hcontinue]
      exact (h'.cycles_eq h.continued hstop (h.cycles_lt hcontinue)).symm
  have houtcome : r.outcome = r'.outcome := by
    by_cases hspent : r.cycles = budget
    · rw [h.continuing_iff.mpr hspent, h'.continuing_iff.mpr (hcycles ▸ hspent)]
    · rw [← h.stopped (mt h.continuing_iff.mp hspent),
        ← h'.stopped (mt h'.continuing_iff.mp (hcycles ▸ hspent)), hcycles]
  have hsteps : r.steps = r'.steps := by rw [steps, steps, houtcome, hcycles]
  have hsetting : r.setting = r'.setting := by rw [h.setting_eq, h'.setting_eq, hsteps]
  have hnotices : r.notices = r'.notices := by
    apply Array.ext'
    rw [h.notices_eq, h'.notices_eq, hsteps]
  obtain ⟨hmachine, hconsole⟩ := Setting.mk.inj hsetting
  cases r
  cases r'
  simp only at hcycles houtcome hmachine hconsole hnotices
  rw [hcycles, houtcome, hmachine, hconsole, hnotices]

theorem of_stopped (h : r.Follows keep s budget) (hstop : r.outcome ≠ .continuing)
    (hbudget : r.cycles < budget') : r.Follows keep s budget' where
  cycles_le := hbudget.le
  continuing_iff := ⟨fun hcontinue => absurd hcontinue hstop, fun hspent => by omega⟩
  continued := h.continued
  stopped := h.stopped
  setting_eq := h.setting_eq
  notices_eq := h.notices_eq

/-- A run is what the cycles that it begins answer. Where those of another course answer the same,
it follows that course as well, to the machine that stands there. -/
theorem transfer {s' : Setting κ} (h : r.Follows keep s budget)
    (houtcome : ∀ i < r.steps,
      (Setting.next^[i] s').cycle.outcome = (Setting.next^[i] s).cycle.outcome)
    (hnotices : ∀ i < r.steps,
      (Setting.next^[i] s').cycle.notices = (Setting.next^[i] s).cycle.notices)
    (hconsole : (Setting.next^[r.steps] s').console = (Setting.next^[r.steps] s).console) :
    Run.Follows { r with machine := (Setting.next^[r.steps] s').machine } keep s' budget where
  cycles_le := h.cycles_le
  continuing_iff := h.continuing_iff
  continued i hi := (houtcome i (hi.trans_le r.cycles_le_steps)).trans (h.continued i hi)
  stopped hstop := (houtcome r.cycles (cycles_lt_steps hstop)).trans (h.stopped hstop)
  setting_eq := by
    have hend : (Setting.next^[r.steps] s').console = r.console :=
      hconsole.trans (congrArg Setting.console h.setting_eq).symm
    simp only [Run.setting, ← hend]
    rfl
  notices_eq := by
    rw [h.notices_eq]
    exact (Setting.flatMap_course_congr fun i hi =>
      congrArg (List.filter keep) (hnotices i hi)).symm

theorem cons (hcontinue : s.cycle.outcome = .continuing) (h : r.Follows keep s.next budget) :
    Run.Follows { r with
      cycles := r.cycles + 1
      notices := (s.cycle.notices.filter keep).toArray ++ r.notices } keep s (budget + 1) := by
  have hsteps := r.steps_succ ((s.cycle.notices.filter keep).toArray ++ r.notices)
  constructor
  case cycles_le => exact Nat.succ_le_succ h.cycles_le
  case continuing_iff =>
    rw [h.continuing_iff]
    simp
  case continued =>
    intro i hi
    cases i with
    | zero => exact hcontinue
    | succ i => exact h.continued i (by simpa using hi)
  case stopped => exact h.stopped
  case setting_eq =>
    rw [hsteps, Function.iterate_succ_apply]
    exact h.setting_eq
  case notices_eq =>
    rw [hsteps, Setting.course_succ, List.flatMap_cons, ← h.notices_eq]
    simp

theorem stop (hstop : s.cycle.outcome ≠ .continuing) :
    Run.Follows ⟨0, s.cycle.outcome, s.next.machine, s.next.console,
      (s.cycle.notices.filter keep).toArray⟩ keep s (budget + 1) := by
  constructor
  case cycles_le => exact Nat.zero_le _
  case continuing_iff => simp [hstop]
  case continued => simp
  case stopped => simp
  case setting_eq => simp [steps, hstop, setting]
  case notices_eq => simp [steps, hstop, Setting.course]

end Follows

end Run

namespace Machine

variable {κ : Type} [Console κ] {keep : Notice → Bool}

theorem runFrom_eq (budget cycles : Nat) (m : Machine) (console : κ) (kept : Array Notice) :
    m.runFrom keep budget cycles console kept =
      let r := m.runFrom keep budget 0 console #[]
      { r with cycles := cycles + r.cycles, notices := kept ++ r.notices } := by
  induction budget generalizing cycles m console kept with
  | zero => simp [runFrom]
  | succ budget ih =>
    by_cases h : (m.step console).outcome = .continuing
    · rw [runFrom_of_continuing h, runFrom_of_continuing h, ih, ih (0 + 1)]
      simp only [Run.mk.injEq, true_and]
      exact ⟨by omega, Array.ext' (by simp)⟩
    · rw [runFrom_of_stopped h, runFrom_of_stopped h]
      simp only [Run.mk.injEq, true_and]
      exact ⟨by omega, Array.ext' (by simp)⟩

theorem run_zero (m : Machine) (console : κ) :
    m.run keep (some 0) console = ⟨0, .continuing, m, console, #[]⟩ := rfl

theorem run_succ_of_continuing {m : Machine} {console : κ}
    (h : (m.step console).outcome = .continuing) (budget : Nat) :
    m.run keep (some (budget + 1)) console =
      let r := (m.step console).machine.run keep (some budget) (m.step console).console
      { r with
        cycles := r.cycles + 1
        notices := ((m.step console).notices.filter keep).toArray ++ r.notices } := by
  simp only [run, Option.getD_some]
  rw [runFrom_of_continuing h, runFrom_eq]
  simp only [Run.mk.injEq, true_and]
  exact ⟨by omega, Array.ext' (by simp)⟩

theorem run_succ_of_stopped {m : Machine} {console : κ}
    (h : (m.step console).outcome ≠ .continuing) (budget : Nat) :
    m.run keep (some (budget + 1)) console =
      ⟨0, (m.step console).outcome, (m.step console).machine, (m.step console).console,
        ((m.step console).notices.filter keep).toArray⟩ := by
  simp only [run, Option.getD_some]
  rw [runFrom_of_stopped h]
  simp only [Run.mk.injEq, true_and]
  exact Array.ext' (by simp)

theorem run_of_stopped {m : Machine} {console : κ} {budget : Option Nat} (hbudget : budget ≠ some 0)
    (h : (m.step console).outcome ≠ .continuing) :
    m.run keep budget console =
      ⟨0, (m.step console).outcome, (m.step console).machine, (m.step console).console,
        ((m.step console).notices.filter keep).toArray⟩ := by
  cases budget with
  | none =>
    have hrun : m.run keep none console = m.run keep (some (UInt64.size - 1 + 1)) console := rfl
    rw [hrun, run_succ_of_stopped h]
  | some budget =>
    cases budget with
    | zero => exact absurd rfl hbudget
    | succ budget => exact run_succ_of_stopped h budget

theorem follows_run (budget : Nat) (m : Machine) (console : κ) :
    (m.run keep (some budget) console).Follows keep ⟨m, console⟩ budget := by
  induction budget generalizing m console with
  | zero =>
    constructor <;> simp [run_zero, Run.steps, Run.setting, Setting.course]
  | succ budget ih =>
    by_cases h : (m.step console).outcome = .continuing
    · rw [run_succ_of_continuing h]
      exact Run.Follows.cons (s := ⟨m, console⟩) h (ih _ _)
    · rw [run_succ_of_stopped h]
      exact Run.Follows.stop (s := ⟨m, console⟩) h

theorem run_resume (first rest : Nat) (m : Machine) (console : κ) :
    let r := m.run keep (some first) console
    let r' := r.machine.run keep (some rest) r.console
    let whole := m.run keep (some (first + rest)) console
    r'.setting = whole.setting ∧ r.cycles + r'.cycles = whole.cycles ∧
      (1 ≤ rest ∨ r.outcome = .continuing → r'.outcome = whole.outcome) := by
  induction first generalizing m console with
  | zero => simp [run_zero]
  | succ first ih =>
    have hsum : first + 1 + rest = first + rest + 1 := by omega
    by_cases h : (m.step console).outcome = .continuing
    · obtain ⟨hsetting, hcycles, houtcome⟩ := ih (m.step console).machine (m.step console).console
      simp only [hsum, run_succ_of_continuing h]
      exact ⟨hsetting, by omega, houtcome⟩
    · -- the rest of the budget meets the machine that stopped
      simp only [hsum, run_succ_of_stopped h]
      cases rest with
      | zero => simp [run_zero, Run.setting, h]
      | succ rest =>
        obtain ⟨houtcome, hnext⟩ := Setting.cycle_of_stopped (s := ⟨m, console⟩) h
        have hstop : ((m.step console).machine.step (m.step console).console).outcome ≠
            .continuing := by
          intro hcontinue
          exact h (houtcome.symm.trans hcontinue)
        rw [run_succ_of_stopped hstop]
        exact ⟨hnext, rfl, fun _ => houtcome⟩

theorem follows_run_none (m : Machine) (console : κ) :
    (m.run keep none console).Follows keep ⟨m, console⟩ unlimited :=
  follows_run unlimited m console

/-- Two runs in a row are one with the sum of the budgets. A run is what its budget lets it see of
the course, and a run without a budget that stops is a run with any budget beyond its end. -/
theorem runs_compose (keep : Notice → Bool) (m : Machine) (console : κ) :
    (∀ first rest : Nat,
      let r := m.run keep (some first) console
      let r' := r.machine.run keep (some rest) r.console
      let whole := m.run keep (some (first + rest)) console
      r'.setting = whole.setting ∧ r.cycles + r'.cycles = whole.cycles ∧
        (1 ≤ rest ∨ r.outcome = .continuing → r'.outcome = whole.outcome)) ∧
    (∀ budget, (m.run keep (some budget) console).Follows keep ⟨m, console⟩ budget) ∧
    ((m.run keep none console).outcome ≠ .continuing →
      ∀ budget, (m.run keep none console).cycles < budget →
        m.run keep (some budget) console = m.run keep none console) ∧
    (∀ k < unlimited, (∀ i < k, (Setting.next^[i] ⟨m, console⟩).cycle.outcome = .continuing) →
      (Setting.next^[k] ⟨m, console⟩).cycle.outcome ≠ .continuing →
        (m.run keep none console).cycles = k ∧
          (m.run keep none console).outcome = (Setting.next^[k] ⟨m, console⟩).cycle.outcome) := by
  refine ⟨fun first rest => run_resume first rest m console,
    fun budget => follows_run budget m console, ?_, ?_⟩
  · intro hstop budget hbudget
    exact (follows_run budget m console).unique
      ((follows_run_none m console).of_stopped hstop hbudget)
  · intro k hk hcontinued hstop
    have hrun : (m.run keep none console).Follows keep ⟨m, console⟩ unlimited :=
      follows_run_none m console
    have hcycles := hrun.cycles_eq hcontinued hstop hk
    have hstopped : (m.run keep none console).outcome ≠ .continuing := by
      rw [Ne, hrun.continuing_iff]
      omega
    refine ⟨hcycles, ?_⟩
    rw [← hrun.stopped hstopped, hcycles]

def holding (words : Array Word) : Machine :=
  (powerOn ⟨32, ⟨5, by decide⟩, by decide, by decide⟩ 0).load words

theorem runs_compose_halting :
    let m := holding #[0xA080, 0xE001]
    let console := BufferedConsole.ofInput []
    let keep : Notice → Bool := fun _ => true
    let r := m.run keep (some 2) console
    (m.run keep none console).cycles = 2 ∧ (m.run keep none console).outcome = .halted ∧
      m.run keep (some 3) console = m.run keep none console ∧ r.outcome = .continuing ∧
      (r.machine.run keep (some 1) r.console).outcome = .halted := by
  intro m console keep r
  obtain ⟨hresume, -, hgrow, hstops⟩ := runs_compose keep m console
  have hcontinued : ∀ i < 2, (Setting.next^[i] ⟨m, console⟩).cycle.outcome = .continuing := by
    decide
  have hhalted : (Setting.next^[2] ⟨m, console⟩).cycle.outcome = .halted := by decide
  obtain ⟨hcycles, houtcome⟩ := hstops 2 (by decide) hcontinued (by rw [hhalted]; decide)
  rw [hhalted] at houtcome
  have hthree := hgrow (by rw [houtcome]; decide) 3 (by rw [hcycles]; decide)
  refine ⟨hcycles, houtcome, hthree, by decide, ?_⟩
  rw [(hresume 2 1).2.2 (.inl le_rfl), hthree, houtcome]

end Machine

end WordMachine
