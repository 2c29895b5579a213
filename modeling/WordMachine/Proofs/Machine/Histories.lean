import WordMachine.Console.Stream
import WordMachine.Proofs.Machine.Course
import WordMachine.Proofs.Word.Numeric

/-!
# Histories

A host switches a machine on, then steps and runs it, sets its registers and cells, and writes to
its ports. An operation that needs a console is handed one each time, of any kind and in any state,
so anything may have happened to it in between. After every history the counter points into the
memory, and the received register holds a byte or the mark for the end of input. A mark that the
machine itself came to holds it for good.
-/

namespace WordMachine

inductive Operation : Type 1
  | step {κ : Type} [Console κ] (console : κ)
  | run {κ : Type} [Console κ] (keep : Notice → Bool) (budget : Option Nat) (console : κ)
  | setPc (pc : Word)
  | setAcc (acc : Word)
  | setFlags (flags : Word)
  | poke (address value : Word)
  | load (words : Array Word)
  | clearMemory
  | setSwitches (switches : Word)
  | reset
  | writePort {κ : Type} [Console κ] (port : Port) (value : Word) (console : κ)

namespace Operation

def apply : Operation → Machine → Machine
  | step console, m => (m.step console).machine
  | run keep budget console, m => (m.run keep budget console).machine
  | setPc pc, m => m.setPc pc
  | setAcc acc, m => m.setAcc acc
  | setFlags flags, m => m.setFlags flags
  | poke address value, m => m.poke address value
  | load words, m => m.load words
  | clearMemory, m => m.clearMemory
  | setSwitches switches, m => m.setSwitches switches
  | reset, m => m.reset
  | writePort port value console, m => { m with ports := (m.ports.write port value console).bank }

/-- The host leaves the flags and the received register to the machine. -/
def isRegular : Operation → Bool
  | setFlags _ | reset | writePort .. => false
  | _ => true

end Operation

def Machine.operate (m : Machine) (history : List Operation) : Machine :=
  history.foldl (fun m o => o.apply m) m

variable {κ : Type} [Console κ] {m : Machine} {size : MemorySize}

theorem Machine.run_preserves {keep : Notice → Bool} {I : Machine → Prop}
    (hstep : ∀ (m : Machine) (console : κ), I m → I (m.step console).machine) (h : I m)
    (budget : Option Nat) (console : κ) : I (m.run keep budget console).machine := by
  have hcourse (n : Nat) : I (Setting.next^[n] ⟨m, console⟩).machine := by
    induction n with
    | zero => exact h
    | succ n ih =>
      rw [Function.iterate_succ_apply']
      exact hstep _ _ ih
  have hrun : (m.run keep budget console).Follows keep ⟨m, console⟩ (budget.getD unlimited) :=
    follows_run _ m console
  have hend := hcourse (m.run keep budget console).steps
  rwa [← hrun.setting_eq] at hend

namespace PortBank

inductive Receives (bank bank' : PortBank) (closed : Prop) : Prop
  | kept (heq : bank'.received = bank.received)
  | byte (byte : UInt8) (heq : bank'.received = byte.toUInt16)
  | marked (heq : bank'.received = endOfInput) (hclosed : closed)

theorem Receives.imp {bank bank' : PortBank} {closed closed' : Prop}
    (h : bank.Receives bank' closed) (himp : closed → closed') : bank.Receives bank' closed' := by
  cases h with
  | kept heq => exact .kept heq
  | byte byte heq => exact .byte byte heq
  | marked heq hclosed => exact .marked heq (himp hclosed)

theorem receives_receive (bank : PortBank) (value : Word) (console : κ) :
    bank.Receives (bank.receive value console).bank
      ((bank.receive value console).answer = .ok .inputClosed) := by
  unfold receive
  split
  · rcases Console.readByte console with ⟨_ | _ | byte, _⟩
    · exact .kept rfl
    · exact .marked rfl rfl
    · exact .byte byte rfl
  · exact .kept rfl

theorem receives_write (bank : PortBank) (port : Port) (value : Word) (console : κ) :
    bank.Receives (bank.write port value console).bank
      ((bank.write port value console).answer = .ok .inputClosed) := by
  cases port with
  | console =>
    simp only [write, transfer]
    split
    · rcases Console.writeByte console value.lowByte with ⟨_ | _, console'⟩
      · exact .kept rfl
      · exact receives_receive bank value console'
    · exact receives_receive bank value console
  | _ => exact .kept rfl

/-- The register holds a byte or the mark. -/
def Sound (bank : PortBank) : Prop := bank.received ≤ 0x00FF ∨ bank.received = endOfInput

theorem toUInt16_le (byte : UInt8) : byte.toUInt16 ≤ 0x00FF := by
  have hlt := byte.toNat_lt
  rw [UInt16.le_iff_toNat_le, UInt8.toNat_toUInt16]
  exact Nat.le_of_lt_succ hlt

theorem Receives.sound {bank bank' : PortBank} {closed : Prop} (h : bank.Receives bank' closed)
    (hbank : bank.Sound) : bank'.Sound := by
  cases h with
  | kept heq => rwa [Sound, heq]
  | byte byte heq => exact .inl (heq ▸ toUInt16_le byte)
  | marked heq => exact .inr heq

theorem Receives.closed {bank bank' : PortBank} {closed : Prop} (h : bank.Receives bank' closed)
    (hmarked : bank'.received = endOfInput) (hbank : bank.received ≠ endOfInput) : closed := by
  cases h with
  | kept heq => exact absurd (heq ▸ hmarked) hbank
  | byte byte heq =>
    have hle := toUInt16_le byte
    rw [← heq, hmarked] at hle
    exact absurd hle (by decide)
  | marked heq hclosed => exact hclosed

end PortBank

theorem PortUse.nextPc_execution (u : PortUse) (acc : Word) (bank : PortBank) (console : κ) :
    (u.execution acc bank console).pending.nextPc = u.pending.nextPc := by
  cases u with
  | none | read => rfl
  | write port p =>
    cases hanswer : (bank.write port acc console).answer with
    | error cause => rw [execution, Execution.ofPortWrite_of_error hanswer, pending]
    | ok answer =>
      rw [execution, Execution.ofPortWrite_of_ok hanswer, pending]
      split <;> rfl

namespace Machine

theorem receives_execution (m : Machine) (console : κ) :
    m.ports.Receives (m.execution console).ports ((m.execution console).fault = none ∧
      Flag.halt.isSet (m.execution console).pending.flags = true) := by
  have hx := executes_execution m console
  generalize m.execution console = x at hx
  cases hx with
  | plain | read => exact .kept rfl
  | @write port p =>
    have hreceives := m.ports.receives_write port m.registers.acc console
    cases hanswer : (m.ports.write port m.registers.acc console).answer with
    | error cause =>
      rw [Execution.ofPortWrite_of_error hanswer]
      exact hreceives.imp fun hclosed => by simp [hanswer] at hclosed
    | ok answer =>
      rw [Execution.ofPortWrite_of_ok hanswer]
      refine hreceives.imp fun hclosed => ⟨rfl, ?_⟩
      obtain rfl : answer = .inputClosed := Except.ok.inj (hanswer.symm.trans hclosed)
      exact Numeric.isSet_put_self _ _ _

theorem nextPc_execution (m : Machine) (console : κ) :
    ∃ address, (m.execution console).pending.nextPc = m.memory.size.wrap address := by
  obtain ⟨u, hu⟩ := m.exists_use_current
  have hexecution : m.execution console = u.execution m.registers.acc m.ports console :=
    hu.execution_eq m.ports console
  rw [hexecution, u.nextPc_execution]
  exact hu.nextPc_eq

@[simp] theorem registers_commit (m : Machine) (p : Pending) :
    (m.commit p).registers = ⟨p.nextPc, p.acc, p.flags⟩ := by
  unfold commit
  split <;> rfl

@[simp] theorem size_commit (m : Machine) (p : Pending) :
    (m.commit p).memory.size = m.memory.size := by
  unfold commit
  split <;> rfl

structure Sound (size : MemorySize) (m : Machine) : Prop where
  size_eq : m.memory.size = size
  pc_lt : m.registers.pc.toNat < size.words
  ports : m.ports.Sound

namespace Sound

theorem powerOn (size : MemorySize) (switches : Word) :
    (Machine.powerOn size switches).Sound size :=
  ⟨rfl, size.words_pos, .inl (by simp [Machine.powerOn])⟩

theorem step (h : m.Sound size) (console : κ) : (m.step console).machine.Sound size := by
  have hreceives := m.receives_execution console
  have hturn := turns_step m console
  generalize m.step console = c at hturn
  cases hturn with
  | latched => exact h
  | halted => exact ⟨h.size_eq, h.pc_lt, h.ports⟩
  | reset => exact ⟨h.size_eq, size.words_pos, h.ports⟩
  | retired =>
    constructor
    case size_eq => rw [size_commit, h.size_eq]
    case pc_lt =>
      obtain ⟨address, hnext⟩ := m.nextPc_execution console
      rw [registers_commit, hnext, h.size_eq, MemorySize.toNat_wrap]
      exact Nat.mod_lt _ size.words_pos
    case ports =>
      rw [ports_commit]
      exact hreceives.sound h.ports
  | failed => exact ⟨h.size_eq, h.pc_lt, hreceives.sound h.ports⟩

theorem apply (h : m.Sound size) (o : Operation) : (o.apply m).Sound size := by
  cases o with
  | step console => exact h.step console
  | run keep budget console =>
    exact run_preserves (fun m console (h : m.Sound size) => h.step console) h budget console
  | setPc pc =>
    refine ⟨h.size_eq, ?_, h.ports⟩
    simp only [Operation.apply, setPc, h.size_eq, MemorySize.toNat_wrap]
    exact Nat.mod_lt _ size.words_pos
  | setAcc | setFlags | poke | load | clearMemory | setSwitches =>
    exact ⟨h.size_eq, h.pc_lt, h.ports⟩
  | reset => exact ⟨h.size_eq, size.words_pos, .inl (by simp [Operation.apply, Machine.reset])⟩
  | writePort port value console =>
    exact ⟨h.size_eq, h.pc_lt, (m.ports.receives_write port value console).sound h.ports⟩

theorem operate (h : m.Sound size) (history : List Operation) : (m.operate history).Sound size :=
  List.foldlRecOn history _ h fun _ hm o _ => hm.apply o

end Sound

/-- The machine does no more than find its halt flag set. -/
structure Idle (m : Machine) : Prop where
  halt : Flag.halt.isSet m.registers.flags = true
  live : ∀ cause, m.runState ≠ .faulted cause

def idleCycle (m : Machine) (console : κ) : Cycle κ :=
  ⟨.halted, { m.deriveStatus with runState := .halted }, console,
    [m.startNotice, .event (.halted m.registers.pc)]⟩

namespace Idle

theorem not_executes (h : m.Idle) : m.executes = false := by
  rw [Bool.eq_false_iff, Ne, executes_eq_true_iff, h.halt]
  simp

theorem step_eq (h : m.Idle) (console : κ) : m.step console = m.idleCycle console :=
  step_of_turns (.halted h.live h.halt)

theorem run_eq (h : m.Idle) {budget : Option Nat} (hbudget : budget ≠ some 0)
    (keep : Notice → Bool) (console : κ) : m.run keep budget console =
      ⟨0, .halted, (m.idleCycle console).machine, console,
        ((m.idleCycle console).notices.filter keep).toArray⟩ := by
  have hstop : (m.step console).outcome ≠ .continuing := by
    rw [h.step_eq]
    exact nofun
  rw [run_of_stopped hbudget hstop, h.step_eq]
  rfl

omit [Console κ] in
theorem idleCycle (h : m.Idle) (console : κ) : (m.idleCycle console).machine.Idle :=
  ⟨(Flag.isSet_derive (by decide) _ _).trans h.halt, nofun⟩

theorem apply (h : m.Idle) {o : Operation} (ho : o.isRegular = true) :
    (o.apply m).Idle ∧ (o.apply m).ports.received = m.ports.received := by
  cases o with
  | step console =>
    simp only [Operation.apply, h.step_eq]
    exact ⟨h.idleCycle console, rfl⟩
  | run keep budget console =>
    by_cases hbudget : budget = some 0
    · subst hbudget
      exact ⟨h, rfl⟩
    · simp only [Operation.apply, h.run_eq hbudget]
      exact ⟨h.idleCycle console, rfl⟩
  | setPc | setAcc | poke | load | clearMemory | setSwitches => exact ⟨⟨h.halt, h.live⟩, rfl⟩
  | setFlags | reset | writePort => contradiction

theorem operate (h : m.Idle) {more : List Operation} (hmore : ∀ o ∈ more, o.isRegular = true) :
    (m.operate more).Idle ∧ (m.operate more).ports.received = m.ports.received := by
  refine List.foldlRecOn (motive := fun t : Machine => t.Idle ∧ t.ports.received = m.ports.received)
    more _ ⟨h, rfl⟩ ?_
  rintro t ⟨hidle, hreceived⟩ o ho
  obtain ⟨hidle', hreceived'⟩ := hidle.apply (hmore o ho)
  exact ⟨hidle', hreceived'.trans hreceived⟩

end Idle

/-- A machine is idle once it has marked the end of its input. -/
def Held (m : Machine) : Prop := m.ports.received = PortBank.endOfInput → m.Idle

namespace Held

theorem step (h : m.Held) (console : κ) : (m.step console).machine.Held := by
  -- while it executes the machine is not idle, so the mark can only be new
  have hnew (hexec : m.executes = true)
      (hmarked : (m.execution console).ports.received = PortBank.endOfInput) :
      (m.execution console).fault = none ∧
        Flag.halt.isSet (m.execution console).pending.flags = true := by
    refine (m.receives_execution console).closed hmarked fun hold => ?_
    rw [(h hold).not_executes] at hexec
    contradiction
  have hturn := turns_step m console
  generalize m.step console = c at hturn
  cases hturn with
  | latched => exact h
  | halted hlive hhalt =>
    intro _
    exact ⟨(Flag.isSet_derive (by decide) _ _).trans hhalt, by simp⟩
  | reset hlive hhalt =>
    intro hmarked
    rw [(h hmarked).halt] at hhalt
    contradiction
  | retired hexec =>
    intro hmarked
    rw [ports_commit] at hmarked
    exact ⟨by simpa using (hnew hexec hmarked).2, by simp⟩
  | failed hexec hfault =>
    intro hmarked
    rw [(hnew hexec hmarked).1] at hfault
    contradiction

theorem apply (h : m.Held) {o : Operation} (ho : o.isRegular = true) : (o.apply m).Held := by
  cases o with
  | step console => exact h.step console
  | run keep budget console =>
    exact run_preserves (fun m console (h : m.Held) => h.step console) h budget console
  | setPc | setAcc | poke | load | clearMemory | setSwitches =>
    intro hmarked
    exact ⟨(h hmarked).halt, (h hmarked).live⟩
  | setFlags | reset | writePort => contradiction

theorem operate (h : m.Held) {history : List Operation}
    (hhistory : ∀ o ∈ history, o.isRegular = true) : (m.operate history).Held :=
  List.foldlRecOn history _ h fun _ hm o ho => hm.apply (hhistory o ho)

end Held

/-- After every history the counter points into the memory, the memory has its size, and the
received register holds a byte or the mark. If the host leaves the flags and the received register
to the machine, then a marked machine has halted, stays so, and every cycle and every run finds just
that, whatever console it is at. -/
theorem histories_sound (size : MemorySize) (switches : Word) (history : List Operation) :
    let m := (powerOn size switches).operate history
    (m.registers.pc.toNat < size.words ∧ m.memory.size = size ∧
      m.memory.cells.size = size.words ∧
      (m.ports.received ≤ 0x00FF ∨ m.ports.received = 0xFFFF)) ∧
    ((∀ o ∈ history, o.isRegular = true) → m.ports.received = 0xFFFF →
      Flag.halt.isSet m.registers.flags = true ∧
      ∀ more : List Operation, (∀ o ∈ more, o.isRegular = true) →
        let t := m.operate more
        t.ports.received = 0xFFFF ∧ Flag.halt.isSet t.registers.flags = true ∧
        ∀ (κ : Type) [Console κ] (console : κ),
          t.step console = t.idleCycle console ∧
          ∀ keep budget, budget ≠ some 0 → t.run keep budget console =
            ⟨0, .halted, (t.idleCycle console).machine, console,
              ((t.idleCycle console).notices.filter keep).toArray⟩) := by
  intro m
  have hsound : m.Sound size := (Sound.powerOn size switches).operate history
  constructor
  · refine ⟨hsound.pc_lt, hsound.size_eq, ?_, hsound.ports⟩
    rw [m.memory.size_cells, hsound.size_eq]
  · intro hregular hmarked
    have hstart : (powerOn size switches).Held := by
      intro hmarked
      exact absurd hmarked (by simp [powerOn, PortBank.endOfInput])
    have hidle : m.Idle := hstart.operate hregular hmarked
    refine ⟨hidle.halt, ?_⟩
    intro more hmore t
    obtain ⟨hidle', hreceived⟩ := hidle.operate hmore
    refine ⟨hreceived.trans hmarked, hidle'.halt, ?_⟩
    intro κ _ console
    exact ⟨hidle'.step_eq console, fun keep budget hbudget => hidle'.run_eq hbudget keep console⟩

theorem histories_sound_marked :
    let size : MemorySize := ⟨32, ⟨5, by decide⟩, by decide, by decide⟩
    let history : List Operation := [.load #[0xA400, 0x9801, 0xA001],
      .run (fun _ => true) (some 2) (BufferedConsole.ofInput [])]
    let m := (powerOn size 0).operate history
    let t := m.operate [.setPc 1, .step (BufferedConsole.ofInput [0x41])]
    m.ports.received = 0xFFFF ∧ t.registers.pc = 1 ∧ t.ports.received = 0xFFFF ∧
      (t.step (StreamConsole.ofInput [0x41])).outcome = .halted := by
  intro size history m t
  have hmarked : m.ports.received = 0xFFFF := by decide
  obtain ⟨-, hheld⟩ := histories_sound size 0 history
  obtain ⟨-, hmore⟩ := hheld (by decide) hmarked
  obtain ⟨hreceived, -, hcycles⟩ := hmore [.setPc 1, .step (BufferedConsole.ofInput [0x41])]
    (by decide)
  obtain ⟨hstep, -⟩ := hcycles StreamConsole (StreamConsole.ofInput [0x41])
  refine ⟨hmarked, by decide, hreceived, ?_⟩
  rw [hstep]
  rfl

end Machine

end WordMachine
