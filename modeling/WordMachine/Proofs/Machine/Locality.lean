import Mathlib.Data.Set.Basic
import WordMachine.Proofs.Machine.Additions

/-!
# Locality

A cycle reads the cell at the program counter, the pointer if the operand is indirect, and the cell
that a load names. Machines that differ in other cells only take the same cycle: they answer the
same, store the same word at the same address, and still differ in other cells only. Which cells are
read is seen on one of the machines, so one run tells for all that differ where it does not look.
-/

namespace WordMachine

variable {κ : Type} [Console κ]

namespace Memory

structure AgreesOn (cells : Set Nat) (memory memory' : Memory) : Prop where
  size_eq : memory'.size = memory.size
  cell_eq : ∀ a ∈ cells, memory'.cells[a]? = memory.cells[a]?

variable {cells : Set Nat} {memory memory' : Memory}

theorem AgreesOn.read_eq (h : memory.AgreesOn cells memory') {address : Word}
    (hread : memory.size.slot address ∈ cells) : memory'.read address = memory.read address := by
  have hcell := h.cell_eq _ hread
  rw [getElem?_slot, ← h.size_eq, getElem?_slot] at hcell
  exact Option.some.inj hcell

def storeAll (memory : Memory) (stores : List (Word × Word)) : Memory :=
  stores.foldl (fun memory store => memory.write store.1 store.2) memory

theorem AgreesOn.write (h : memory.AgreesOn cells memory') (address value : Word) :
    (memory.write address value).AgreesOn cells (memory'.write address value) := by
  refine ⟨h.size_eq, fun a ha => ?_⟩
  simp only [Memory.write, Array.getElem?_set, h.size_eq, h.cell_eq a ha]

end Memory

namespace Machine

def withMemory (m : Machine) (memory : Memory) : Machine := { m with memory }

def operandReads (m : Machine) (i : Instruction) : List Word :=
  let pointer :=
    if i.honorsIndirect && Flag.indirect.isSet m.registers.flags then [i.operand] else []
  let loaded :=
    match i.opcode with
    | .load => [m.effectiveOperand i]
    | .loadDirect =>
      match Address.translate i.operand m.memory.size with
      | .memory address => [address]
      | .port _ => []
    | _ => []
  pointer ++ loaded

/-- The cells that a cycle reads. A latched machine does not fetch, one that halts or resets does no
more than that. -/
def reads (m : Machine) : List Nat :=
  match m.runState with
  | .faulted _ => []
  | _ =>
    let operand := if m.executes then m.operandReads m.current else []
    (m.registers.pc :: operand).map m.memory.size.slot

/-- All is equal but the memories, and these agree on the cells. -/
structure AgreesOn (cells : Set Nat) (m m' : Machine) : Prop where
  machine_eq : m' = m.withMemory m'.memory
  memory : m.memory.AgreesOn cells m'.memory

end Machine

namespace Setting

def store? (s : Setting κ) : Option (Word × Word) :=
  if s.machine.executes ∧ (s.machine.execution s.console).fault = none then
    (s.machine.execution s.console).pending.memoryWrite
  else none

def stores (s : Setting κ) (n : Nat) : List (Word × Word) :=
  (s.course n).flatMap fun t => t.store?.toList

structure AgreesOn (cells : Set Nat) (s s' : Setting κ) : Prop where
  machine : s.machine.AgreesOn cells s'.machine
  console_eq : s'.console = s.console

end Setting

namespace Machine

variable {m : Machine} {memory : Memory} {cells : Set Nat}

theorem effectiveOperand_withMemory {i : Instruction}
    (hreads : ∀ address ∈ m.operandReads i, memory.read address = m.memory.read address) :
    (m.withMemory memory).effectiveOperand i = m.effectiveOperand i := by
  by_cases hindirect : (i.honorsIndirect && Flag.indirect.isSet m.registers.flags) = true
  · have hpointer : memory.read i.operand = m.memory.read i.operand :=
      hreads _ (by simp [operandReads, hindirect])
    simp only [effectiveOperand, withMemory, hindirect, if_true, hpointer]
  · simp only [effectiveOperand, withMemory, hindirect, Bool.false_eq_true, if_false]

theorem execute_withMemory (hsize : memory.size = m.memory.size) {i : Instruction}
    (hreads : ∀ address ∈ m.operandReads i, memory.read address = m.memory.read address)
    (console : κ) : (m.withMemory memory).execute i console = m.execute i console := by
  have hoperand := effectiveOperand_withMemory hreads
  have hmemory : (m.withMemory memory).memory.size = m.memory.size := hsize
  cases op : i.opcode
  case load =>
    have hload : memory.read (m.effectiveOperand i) = m.memory.read (m.effectiveOperand i) :=
      hreads _ (by simp [operandReads, op])
    simp only [execute, op, hoperand, hmemory]
    simp only [withMemory, hload]
  case loadDirect =>
    cases haddress : Address.translate i.operand m.memory.size with
    | memory address =>
      have hload : memory.read address = m.memory.read address :=
        hreads _ (by simp [operandReads, op, haddress])
      simp only [execute, op, hmemory, haddress]
      simp only [withMemory, hload]
    | port port =>
      simp only [execute, op, hmemory, haddress]
      rfl
  all_goals
    simp only [execute, op, hoperand, hmemory]
    rfl

theorem operandReads_deriveStatus (m : Machine) (i : Instruction) :
    m.deriveStatus.operandReads i = m.operandReads i := by
  have hindirect : Flag.indirect.isSet m.deriveStatus.registers.flags =
      Flag.indirect.isSet m.registers.flags := Flag.isSet_derive (by decide) _ _
  rw [operandReads, hindirect, effectiveOperand_deriveStatus]
  rfl

theorem reads_of_live (hlive : ∀ cause, m.runState ≠ .faulted cause) :
    m.reads = (m.registers.pc ::
      if m.executes then m.operandReads m.current else []).map m.memory.size.slot := by
  unfold reads
  cases hstate : m.runState with
  | faulted cause => exact absurd hstate (hlive cause)
  | _ => rfl

theorem fetch_withMemory (hmemory : m.memory.AgreesOn cells memory)
    (hreads : ∀ a ∈ m.reads, a ∈ cells) (hlive : ∀ cause, m.runState ≠ .faulted cause) :
    memory.read m.registers.pc = m.memory.read m.registers.pc := by
  apply hmemory.read_eq
  apply hreads
  rw [reads_of_live hlive]
  exact List.mem_cons_self

theorem startNotice_withMemory
    (hfetch : memory.read m.registers.pc = m.memory.read m.registers.pc) :
    (m.withMemory memory).startNotice = m.startNotice := by
  unfold startNotice
  simp only [withMemory, hfetch]
  rfl

theorem execution_withMemory (hmemory : m.memory.AgreesOn cells memory)
    (hreads : ∀ a ∈ m.reads, a ∈ cells) (hexec : m.executes = true) (console : κ) :
    (m.withMemory memory).execution console = m.execution console := by
  have hlive := (executes_eq_true_iff.mp hexec).1
  have hfetch := fetch_withMemory hmemory hreads hlive
  have hcurrent : (m.withMemory memory).current = m.current := congrArg Instruction.decode hfetch
  rw [execution, hcurrent]
  refine execute_withMemory (m := m.deriveStatus) hmemory.size_eq ?_ console
  intro address haddress
  rw [operandReads_deriveStatus] at haddress
  apply hmemory.read_eq
  apply hreads
  rw [reads_of_live hlive, if_pos hexec]
  exact List.mem_map_of_mem (List.mem_cons_of_mem _ haddress)

theorem memory_commit (m : Machine) (p : Pending) :
    (m.commit p).memory = m.memory.storeAll p.memoryWrite.toList := by
  unfold commit
  cases p.memoryWrite <;> rfl

theorem AgreesOn.commit {m' : Machine} (h : m.AgreesOn cells m') (p : Pending) :
    (m.commit p).AgreesOn cells (m'.commit p) := by
  obtain ⟨hmachine, hmemory⟩ := h
  rw [hmachine]
  unfold Machine.commit
  cases p.memoryWrite with
  | none => exact ⟨rfl, hmemory⟩
  | some w => exact ⟨rfl, hmemory.write w.1 w.2⟩

end Machine

namespace Setting

variable {s s' : Setting κ} {cells : Set Nat}

theorem memory_next (s : Setting κ) :
    s.next.machine.memory = s.machine.memory.storeAll s.store?.toList := by
  obtain ⟨m, console⟩ := s
  simp only [next, cycle, store?]
  by_cases hexec : m.executes = true
  · cases hfault : (m.execution console).fault with
    | none =>
      rw [Machine.step_of_turns (.retired hexec hfault), if_pos ⟨hexec, rfl⟩]
      exact Machine.memory_commit _ _
    | some cause =>
      rw [Machine.step_of_turns (.failed hexec hfault), if_neg (by simp)]
      rfl
  · rw [if_neg fun h => hexec h.1]
    have hturn := Machine.turns_step m console
    generalize m.step console = c at hturn
    cases hturn with
    | latched | halted | reset => rfl
    | retired hexec' | failed hexec' => exact absurd hexec' hexec

theorem memory_iterate (s : Setting κ) (n : Nat) :
    (next^[n] s).machine.memory = s.machine.memory.storeAll (s.stores n) := by
  induction n generalizing s with
  | zero => rfl
  | succ n ih =>
    rw [Function.iterate_succ_apply, ih, memory_next, stores, stores, course_succ,
      List.flatMap_cons, Memory.storeAll, Memory.storeAll, Memory.storeAll, List.foldl_append]

namespace AgreesOn

theorem cycle (h : s.AgreesOn cells s') (hreads : ∀ a ∈ s.machine.reads, a ∈ cells) :
    s'.cycle.outcome = s.cycle.outcome ∧ s'.cycle.notices = s.cycle.notices ∧
      s'.store? = s.store? ∧ s.next.AgreesOn cells s'.next := by
  obtain ⟨m, console⟩ := s
  obtain ⟨m', console'⟩ := s'
  obtain ⟨⟨hmachine, hmemory⟩, hconsole⟩ := h
  simp only at hmachine hmemory hconsole hreads
  generalize m'.memory = memory at hmachine hmemory
  subst hmachine hconsole
  have hexecutes : (m.withMemory memory).executes = m.executes := rfl
  have hexecution (hexec : m.executes = true) :
      (m.withMemory memory).execution console' = m.execution console' :=
    Machine.execution_withMemory hmemory hreads hexec console'
  have hstore : Setting.store? ⟨m.withMemory memory, console'⟩ = Setting.store? ⟨m, console'⟩ := by
    by_cases hexec : m.executes = true
    · simp only [store?, hexecutes, hexecution hexec]
    · simp only [store?, hexecutes, hexec, Bool.false_eq_true, false_and, if_false]
  have hstart (hlive : ∀ cause, m.runState ≠ .faulted cause) :
      (m.withMemory memory).startNotice = m.startNotice :=
    Machine.startNotice_withMemory (Machine.fetch_withMemory hmemory hreads hlive)
  have hturn := Machine.turns_step m console'
  -- the other memory takes the same turn, since no condition of a turn looks at the memory but
  -- through the execution
  simp only [Setting.cycle, Setting.next]
  generalize m.step console' = c at hturn
  cases hturn with
  | latched hlatched =>
    rw [Machine.step_of_turns (m := m.withMemory memory) (.latched hlatched)]
    exact ⟨rfl, rfl, hstore, ⟨rfl, hmemory⟩, rfl⟩
  | halted hlive hhalt =>
    rw [Machine.step_of_turns (m := m.withMemory memory) (.halted hlive hhalt), hstart hlive]
    exact ⟨rfl, rfl, hstore, ⟨rfl, hmemory⟩, rfl⟩
  | reset hlive hhalt hreset =>
    rw [Machine.step_of_turns (m := m.withMemory memory) (.reset hlive hhalt hreset),
      hstart hlive]
    exact ⟨rfl, rfl, hstore, ⟨rfl, hmemory⟩, rfl⟩
  | retired hexec hfault =>
    have hlive := (Machine.executes_eq_true_iff.mp hexec).1
    rw [← hexecution hexec] at hfault
    rw [Machine.step_of_turns (m := m.withMemory memory) (.retired hexec hfault), hexecution hexec,
      hstart hlive]
    exact ⟨rfl, rfl, hstore, Machine.AgreesOn.commit ⟨rfl, hmemory⟩ _, rfl⟩
  | failed hexec hfault =>
    have hlive := (Machine.executes_eq_true_iff.mp hexec).1
    rw [← hexecution hexec] at hfault
    rw [Machine.step_of_turns (m := m.withMemory memory) (.failed hexec hfault), hexecution hexec,
      hstart hlive]
    exact ⟨rfl, rfl, hstore, ⟨rfl, hmemory⟩, rfl⟩

theorem iterate (h : s.AgreesOn cells s') {n : Nat}
    (hreads : ∀ i < n, ∀ a ∈ (next^[i] s).machine.reads, a ∈ cells) :
    (next^[n] s).AgreesOn cells (next^[n] s') := by
  induction n with
  | zero => exact h
  | succ n ih =>
    have hbefore := ih fun i hi => hreads i (hi.trans n.lt_succ_self)
    rw [Function.iterate_succ_apply', Function.iterate_succ_apply']
    exact (hbefore.cycle (hreads n n.lt_succ_self)).2.2.2

end AgreesOn

end Setting

namespace Machine

/-- A run looks at the cells that it reads and no others. From every machine that agrees on these it
takes the same cycles at the same console and makes the same stores, and the machines agree on these
cells all the way. -/
theorem runs_local (cells : Set Nat) (m m' : Machine) (h : m.AgreesOn cells m') (console : κ) :
    let s : Setting κ := ⟨m, console⟩
    let s' : Setting κ := ⟨m', console⟩
    (∀ n, (∀ i < n, ∀ a ∈ (Setting.next^[i] s).machine.reads, a ∈ cells) →
      (∀ i < n, (Setting.next^[i] s').cycle.outcome = (Setting.next^[i] s).cycle.outcome ∧
        (Setting.next^[i] s').cycle.notices = (Setting.next^[i] s).cycle.notices ∧
        (Setting.next^[i] s').store? = (Setting.next^[i] s).store?) ∧
      (∀ i ≤ n, (Setting.next^[i] s).AgreesOn cells (Setting.next^[i] s')) ∧
      (Setting.next^[n] s).machine.memory = m.memory.storeAll (s.stores n) ∧
      (Setting.next^[n] s').machine.memory = m'.memory.storeAll (s.stores n)) ∧
    (∀ keep budget, let r := m.run keep budget console
      (∀ i < r.steps, ∀ a ∈ (Setting.next^[i] s).machine.reads, a ∈ cells) →
        ∃ machine, r.machine.AgreesOn cells machine ∧
          m'.run keep budget console = { r with machine }) := by
  intro s s'
  have hstart : s.AgreesOn cells s' := ⟨h, rfl⟩
  have hcourse {n : Nat} (hreads : ∀ i < n, ∀ a ∈ (Setting.next^[i] s).machine.reads, a ∈ cells)
      {i : Nat} (hi : i ≤ n) : (Setting.next^[i] s).AgreesOn cells (Setting.next^[i] s') :=
    hstart.iterate fun j hj => hreads j (hj.trans_le hi)
  have hcycle {n : Nat} (hreads : ∀ i < n, ∀ a ∈ (Setting.next^[i] s).machine.reads, a ∈ cells)
      (i : Nat) (hi : i < n) := (hcourse hreads hi.le).cycle (hreads i hi)
  constructor
  · intro n hreads
    refine ⟨fun i hi => ?_, fun i hi => hcourse hreads hi, Setting.memory_iterate s n, ?_⟩
    · obtain ⟨houtcome, hnotices, hstore, -⟩ := hcycle hreads i hi
      exact ⟨houtcome, hnotices, hstore⟩
    · have hstores : s'.stores n = s.stores n :=
        Setting.flatMap_course_congr fun i hi => congrArg Option.toList (hcycle hreads i hi).2.2.1
      rw [Setting.memory_iterate, hstores]
  · intro keep budget r hreads
    have hrun : r.Follows keep s (budget.getD unlimited) := follows_run _ m console
    have hrun' : (m'.run keep budget console).Follows keep s' (budget.getD unlimited) :=
      follows_run _ m' console
    have hend := hcourse hreads le_rfl
    refine ⟨_, ?_, hrun'.unique (hrun.transfer (fun i hi => (hcycle hreads i hi).1)
      (fun i hi => (hcycle hreads i hi).2.1) hend.console_eq)⟩
    rw [← hrun.setting_eq] at hend
    exact hend.machine

/-- The program follows pointers and stores the word at address 5, which it then executes. Only the
cells of its words and pointers count. -/
theorem runs_local_pointers :
    let m := holding #[0xA040, 0xE001, 0x6010, 0x7011, 0xB000, 0, 0xE001, 0, 0, 0, 0, 0, 0, 0, 0, 0,
      0x0012, 0x0005, 0xA080]
    let console := BufferedConsole.ofInput []
    let r := m.run (fun _ => true) (some 9) console
    let r' := (m.poke 20 0xFFFF).run (fun _ => true) (some 9) console
    r'.cycles = 7 ∧ r'.outcome = .halted ∧ r'.notices = r.notices ∧
      (Setting.next^[7] ⟨m.poke 20 0xFFFF, console⟩).machine.memory =
        (m.memory.write 20 0xFFFF).storeAll [(5, 0xA080)] := by
  intro m console r r'
  let cells : Set Nat := {a | a < 8 ∨ 16 ≤ a ∧ a < 19}
  have hagree : m.AgreesOn cells (m.poke 20 0xFFFF) := by
    refine ⟨rfl, rfl, fun a ha => ?_⟩
    have hne : 20 ≠ a := by
      rintro rfl
      simp [cells] at ha
    exact Array.getElem?_set_ne (m.memory.slot_lt 20) hne
  have hcycles : r.cycles = 7 := by decide
  have houtcome : r.outcome = .halted := by decide
  have hsteps : r.steps = 8 := by decide
  have hreads : ∀ i < 8, ∀ a ∈ (Setting.next^[i] ⟨m, console⟩).machine.reads, a ∈ cells := by
    decide
  have hstores : Setting.stores ⟨m, console⟩ 7 = [(5, 0xA080)] := by decide
  obtain ⟨hcourse, hruns⟩ := runs_local cells m (m.poke 20 0xFFFF) hagree console
  obtain ⟨-, -, -, hmemory⟩ := hcourse 7 fun i hi => hreads i (by omega)
  obtain ⟨machine, -, hrun⟩ := hruns (fun _ => true) (some 9) (by rwa [← hsteps] at hreads)
  change r' = _ at hrun
  rw [hrun]
  rw [hstores] at hmemory
  exact ⟨hcycles, houtcome, rfl, hmemory⟩

end Machine

end WordMachine
