import Mathlib.Data.List.Forall2
import WordMachine.Proofs.Machine.Hidden
import WordMachine.Proofs.Machine.Isolation
import WordMachine.Proofs.Word.Numeric

/-!
# Blocks of a trace

Each cycle adds one block to the trace. A block begins with the start of the cycle, which shows the
counter, the word fetched there, the accumulator and its flags. After it comes at most one event, by
which the cycle resets, accesses a port, halts or faults. Only a cycle that finds a latched fault
leaves nothing. So the starts in the trace of a run are the cycles that it counts, and one more if
it halts or a fault ends it that was not latched before.
-/

namespace WordMachine

variable {κ : Type} [Console κ]

namespace Event

def isStart : Event → Bool
  | start .. => true
  | _ => false

def isAccess : Event → Bool
  | portRead .. | portWrite .. => true
  | _ => false

theorem isStart_of_isAccess {e : Event} (h : e.isAccess = true) : e.isStart = false := by
  cases e <;> first | rfl | contradiction

end Event

namespace Setting

/-- The event that opens the block of a cycle. Of the flags that it shows, those that restate the
accumulator are derived anew. -/
inductive Starts (s : Setting κ) (flags : Word) : Event → Prop
  | intro {word : Word} (hlive : ∀ cause, s.machine.runState ≠ .faulted cause)
      (hword : s.machine.memory.cells[
        s.machine.registers.pc.toNat % s.machine.memory.size.words]? = some word)
      (hflags : flags.toNat =
        Numeric.status s.machine.registers.flags.toNat s.machine.registers.acc.toNat) :
      Starts s flags (.start s.machine.registers.pc word s.machine.registers.acc flags)

inductive Block (s : Setting κ) : StepOutcome → List Event → Prop
  | latched {cause : Fault} (hlatched : s.machine.runState = .faulted cause) :
      Block s (.fault cause) []
  | halted {start : Event} {flags : Word} (hstart : s.Starts flags start)
      (hhalt : Flag.halt.isSet flags = true) :
      Block s .halted [start, .halted s.machine.registers.pc]
  | reset {start : Event} {flags : Word} (hstart : s.Starts flags start)
      (hhalt : Flag.halt.isSet flags = false) (hreset : Flag.reset.isSet flags = true) :
      Block s .continuing [start, .reset s.machine.registers.pc]
  | silent {start : Event} {flags : Word} (hstart : s.Starts flags start)
      (hhalt : Flag.halt.isSet flags = false) (hreset : Flag.reset.isSet flags = false) :
      Block s .continuing [start]
  | access {start e : Event} {flags : Word} (hstart : s.Starts flags start)
      (hhalt : Flag.halt.isSet flags = false) (hreset : Flag.reset.isSet flags = false)
      (haccess : e.isAccess = true) : Block s .continuing [start, e]
  | raised {start : Event} {flags : Word} {cause : Fault} (hstart : s.Starts flags start)
      (hhalt : Flag.halt.isSet flags = false) (hreset : Flag.reset.isSet flags = false) :
      Block s (.fault cause) [start, .fault cause s.machine.registers.pc]

/-- What follows the blocks of the counted cycles: nothing where the budget is spent, else the block
of the cycle that stops. -/
inductive LastBlock (s : Setting κ) : StepOutcome → List Event → Prop
  | spent : LastBlock s .continuing []
  | stopped {outcome : StepOutcome} {block : List Event} (hstop : outcome ≠ .continuing)
      (hblock : s.Block outcome block) : LastBlock s outcome block

def events (s : Setting κ) : List Event := s.cycle.notices.filterMap Notice.event?

end Setting

theorem Notice.filterMap_event?_remarks (remarks : List Remark) :
    (remarks.map remark).filterMap event? = [] := by
  simp [Function.comp_def, event?]

namespace Machine

variable {m : Machine} {console : κ}

theorem events_of_retired (h : (m.execution console).fault = none) :
    (m.execution console).notices.filterMap Notice.event? = [] ∨
      ∃ e : Event, e.isAccess = true ∧
        (m.execution console).notices.filterMap Notice.event? = [e] := by
  have hx := executes_execution m console
  generalize m.execution console = x at h hx
  cases hx with
  | plain => exact .inl rfl
  | @read port => exact .inr ⟨.portRead port (m.ports.read port console).1, rfl, rfl⟩
  | @write port p =>
    cases hanswer : (m.ports.write port m.registers.acc console).answer with
    | error cause =>
      rw [(Execution.fault_ofPortWrite cause).mpr hanswer] at h
      contradiction
    | ok answer =>
      refine .inr ⟨.portWrite port m.registers.acc, rfl, ?_⟩
      rw [Execution.ofPortWrite_of_ok hanswer, List.filterMap_append,
        Notice.filterMap_event?_remarks]
      rfl

theorem events_of_failed {cause : Fault} (h : (m.execution console).fault = some cause) :
    (m.execution console).notices.filterMap Notice.event? = [] := by
  have hx := executes_execution m console
  generalize m.execution console = x at h hx
  cases hx with
  | plain => rfl
  | read => contradiction
  | write =>
    rw [Execution.ofPortWrite_of_error ((Execution.fault_ofPortWrite cause).mp h)]
    exact Notice.filterMap_event?_remarks _

end Machine

namespace Setting

variable {s : Setting κ}

omit [Console κ] in
theorem starts (hlive : ∀ cause, s.machine.runState ≠ .faulted cause) :
    s.Starts s.machine.deriveStatus.registers.flags
      (.start s.machine.registers.pc (s.machine.memory.read s.machine.registers.pc)
        s.machine.registers.acc s.machine.deriveStatus.registers.flags) :=
  .intro hlive (s.machine.memory.getElem?_slot _) (Numeric.toNat_derive _ _)

theorem block_events (s : Setting κ) : s.Block s.cycle.outcome s.events := by
  have hhalt_eq : Flag.halt.isSet s.machine.deriveStatus.registers.flags =
      Flag.halt.isSet s.machine.registers.flags := Flag.isSet_derive (by decide) _ _
  have hreset_eq : Flag.reset.isSet s.machine.deriveStatus.registers.flags =
      Flag.reset.isSet s.machine.registers.flags := Flag.isSet_derive (by decide) _ _
  have hturn := Machine.turns_step s.machine s.console
  simp only [events, cycle]
  generalize s.machine.step s.console = c at hturn
  cases hturn with
  | latched hlatched => exact .latched hlatched
  | halted hlive hhalt => exact .halted (starts hlive) (hhalt_eq.trans hhalt)
  | reset hlive hhalt hreset =>
    exact .reset (starts hlive) (hhalt_eq.trans hhalt) (hreset_eq.trans hreset)
  | retired hexec hfault =>
    obtain ⟨hlive, hhalt, hreset⟩ := Machine.executes_eq_true_iff.mp hexec
    rw [List.filterMap_cons]
    obtain hnone | ⟨e, haccess, hone⟩ := Machine.events_of_retired hfault
    · rw [hnone]
      exact .silent (starts hlive) (hhalt_eq.trans hhalt) (hreset_eq.trans hreset)
    · rw [hone]
      exact .access (starts hlive) (hhalt_eq.trans hhalt) (hreset_eq.trans hreset) haccess
  | failed hexec hfault =>
    obtain ⟨hlive, hhalt, hreset⟩ := Machine.executes_eq_true_iff.mp hexec
    rw [List.filterMap_append, List.filterMap_cons, Machine.events_of_failed hfault]
    exact .raised (starts hlive) (hhalt_eq.trans hhalt) (hreset_eq.trans hreset)

omit [Console κ] in
theorem Starts.live {flags : Word} {e : Event} (h : s.Starts flags e) (cause : Fault) :
    s.machine.runState ≠ .faulted cause := by
  obtain ⟨hlive, -, -⟩ := h
  exact hlive cause

omit [Console κ] in
theorem Block.countP_isStart {outcome : StepOutcome} {block : List Event}
    (h : s.Block outcome block)
    (hfresh : ∀ cause, outcome = .fault cause → s.machine.runState ≠ .faulted cause) :
    block.countP Event.isStart = 1 := by
  cases h with
  | latched hlatched => exact absurd hlatched (hfresh _ rfl)
  | access hstart _ _ haccess =>
    cases hstart
    rw [List.countP_cons_of_pos rfl, List.countP_singleton, Event.isStart_of_isAccess haccess]
    rfl
  | halted hstart | reset hstart | silent hstart | raised hstart =>
    cases hstart
    rfl

omit [Console κ] in
theorem countP_isStart_flatten {course : List (Setting κ)} {blocks : List (List Event)}
    (h : List.Forall₂ (fun t block => t.Block .continuing block) course blocks) :
    blocks.flatten.countP Event.isStart = course.length := by
  induction h with
  | nil => rfl
  | cons hblock _ ih =>
    rw [List.flatten_cons, List.countP_append, hblock.countP_isStart nofun, ih, List.length_cons,
      Nat.add_comm]

theorem forall₂_blocks {n : Nat}
    (hcontinued : ∀ i < n, (next^[i] s).cycle.outcome = .continuing) :
    List.Forall₂ (fun t block => t.Block .continuing block) (s.course n)
      ((s.course n).map events) := by
  rw [List.forall₂_map_right_iff, List.forall₂_same]
  intro t ht
  obtain ⟨i, hi, rfl⟩ := List.mem_iterate.mp ht
  have hblock := block_events (next^[i] s)
  rwa [hcontinued i hi] at hblock

theorem fresh_iterate {n : Nat} {cause : Fault} (hfresh : s.machine.runState ≠ .faulted cause)
    (hcontinued : ∀ i < n, (next^[i] s).cycle.outcome = .continuing) :
    (next^[n] s).machine.runState ≠ .faulted cause := by
  cases n with
  | zero => exact hfresh
  | succ n =>
    have hstate : (next (next^[n] s)).machine.runState = (next^[n] s).cycle.outcome.runState :=
      Machine.runState_step _ _
    rw [Function.iterate_succ_apply', hstate, hcontinued n n.lt_succ_self]
    exact nofun

end Setting

namespace Run.Follows

variable {r : Run κ} {keep : Notice → Bool} {s : Setting κ} {budget : Nat}

theorem trace_eq (h : r.Follows keep s budget) (hkeep : ∀ e, keep (.event e) = true) :
    r.trace = (s.course r.steps).flatMap Setting.events := by
  have hfilter (notices : List Notice) :
      (notices.filter keep).filterMap Notice.event? = notices.filterMap Notice.event? := by
    rw [List.filterMap_filter]
    refine congrArg (List.filterMap · notices) (funext fun notice => ?_)
    cases notice <;> simp [hkeep, Notice.event?]
  rw [trace, h.notices_eq, List.filterMap_flatMap]
  simp only [hfilter]
  rfl

theorem exists_blocks (h : r.Follows keep s budget) (hkeep : ∀ e, keep (.event e) = true) :
    ∃ blocks last, r.trace = blocks.flatten ++ last ∧
      List.Forall₂ (fun t block => t.Block .continuing block) (s.course r.cycles) blocks ∧
      (Setting.next^[r.cycles] s).LastBlock r.outcome last := by
  have hblocks := Setting.forall₂_blocks h.continued
  have htrace := h.trace_eq hkeep
  by_cases hcontinue : r.outcome = .continuing
  · rw [steps, if_pos hcontinue, List.flatMap_def] at htrace
    refine ⟨_, [], by rw [htrace, List.append_nil], hblocks, ?_⟩
    rw [hcontinue]
    exact .spent
  · have hcourse : s.course (r.cycles + 1) = s.course r.cycles ++ [Setting.next^[r.cycles] s] :=
      List.iterate_add _ _ _ _
    rw [steps, if_neg hcontinue, hcourse, List.flatMap_append, List.flatMap_singleton] at htrace
    refine ⟨_, _, htrace, hblocks, .stopped hcontinue ?_⟩
    rw [← h.stopped hcontinue]
    exact Setting.block_events _

end Run.Follows

namespace Machine

/-- The trace of a run is made of the blocks of the cycles that it counts and of the block, if there
is one, of the cycle that stops it. Hence the starts in it are one more than the cycles that it
counts if it halts or raises a fault, and as many otherwise. -/
theorem trace_in_blocks (keep : Notice → Bool) (hkeep : ∀ e, keep (.event e) = true)
    (budget : Option Nat) (m : Machine) (console : κ) :
    let s : Setting κ := ⟨m, console⟩
    let r := m.run keep budget console
    let starts := r.trace.countP Event.isStart
    (∃ blocks last, r.trace = blocks.flatten ++ last ∧
      List.Forall₂ (fun t block => t.Block .continuing block) (s.course r.cycles) blocks ∧
      (Setting.next^[r.cycles] s).LastBlock r.outcome last) ∧
    (r.outcome = .continuing → starts = r.cycles) ∧
    (r.outcome = .halted → starts = r.cycles + 1) ∧
    (∀ cause, r.outcome = .fault cause →
      (m.runState ≠ .faulted cause → starts = r.cycles + 1) ∧
      (m.runState = .faulted cause → starts = r.cycles)) := by
  intro s r starts
  have hrun : r.Follows keep s (budget.getD unlimited) := follows_run _ m console
  obtain ⟨blocks, last, htrace, hblocks, hlast⟩ := hrun.exists_blocks hkeep
  have hstarts : starts = r.cycles + last.countP Event.isStart := by
    have hcounted := Setting.countP_isStart_flatten hblocks
    have hlength : (s.course r.cycles).length = r.cycles := List.length_iterate _ _ _
    simp only [starts, htrace, List.countP_append, hcounted, hlength]
  refine ⟨⟨blocks, last, htrace, hblocks, hlast⟩, ?_, ?_, ?_⟩
  · intro hcontinue
    rw [hcontinue] at hlast
    cases hlast with
    | spent => exact hstarts
    | stopped hstop => exact absurd rfl hstop
  · intro hhalted
    rw [hhalted] at hlast
    cases hlast with
    | stopped _ hblock => rw [hstarts, hblock.countP_isStart nofun]
  · intro cause hfault
    rw [hfault] at hlast
    cases hlast with
    | stopped _ hblock =>
      constructor
      · intro hfresh
        have hlive := Setting.fresh_iterate (s := s) hfresh hrun.continued
        rw [hstarts, hblock.countP_isStart]
        rintro _ ⟨⟩
        exact hlive
      · intro hlatched
        -- no cycle changes a latched machine, so the last one still finds the fault
        have hfixed : Setting.next^[r.cycles] s = s := Setting.iterate_of_faulted hlatched _
        rw [hfixed] at hblock
        cases hblock with
        | latched => exact hstarts
        | raised hstart => exact absurd hlatched (hstart.live _)

theorem trace_in_blocks_failing :
    let m := (holding #[0x9800, 0x9801]).setAcc 0x2041
    let r := m.run (fun _ => true) (some 9) ({ failWrites := true } : BufferedConsole)
    r.outcome = .fault .consoleWrite ∧ r.cycles = 1 ∧
      r.trace.length = 4 ∧ r.trace.countP Event.isStart = 2 := by
  intro m r
  have houtcome : r.outcome = .fault .consoleWrite := by decide
  have hcycles : r.cycles = 1 := by decide
  have hfresh : m.runState ≠ .faulted .consoleWrite := by decide
  obtain ⟨-, -, -, hfault⟩ := trace_in_blocks (fun _ => true) (fun _ => rfl) (some 9) m
    ({ failWrites := true } : BufferedConsole)
  have hstarts := (hfault .consoleWrite houtcome).1 hfresh
  rw [hcycles] at hstarts
  exact ⟨houtcome, hcycles, by decide, hstarts⟩

end Machine

end WordMachine
