import WordMachine.Proofs.Machine.Faults

/-!
# Accounts of the traffic

The trace of a machine at a buffered console accounts for every byte that goes through its console
port, and for the lights. One byte escapes it: a write that sends and then fails to receive is not
traced, although its byte was sent. It is the last byte sent, since the fault ends the traffic.
-/

namespace WordMachine

open Numeric

def Event.write? : Event → Option (Port × Word)
  | portWrite port value => some (port, value)
  | _ => none

def Notice.writes (notices : List Notice) : List (Port × Word) :=
  (notices.filterMap event?).filterMap Event.write?

@[simp] theorem Notice.writes_append (notices notices' : List Notice) :
    writes (notices ++ notices') = writes notices ++ writes notices' := by
  simp [writes]

@[simp] theorem Notice.writes_remarks (remarks : List Remark) :
    writes (remarks.map .remark) = [] := by
  simp [writes, Function.comp_def, event?]

namespace Machine

variable {m : Machine} {console : BufferedConsole}

theorem execution_of_retired (h : (m.execution console).fault = none) :
    ((m.execution console).ports = m.ports ∧ (m.execution console).console = console ∧
      Notice.writes (m.execution console).notices = []) ∨
    ∃ port answer, (m.ports.write port m.registers.acc console).answer = .ok answer ∧
      (m.execution console).ports = (m.ports.write port m.registers.acc console).bank ∧
      (m.execution console).console = (m.ports.write port m.registers.acc console).console ∧
      Notice.writes (m.execution console).notices = [(port, m.registers.acc)] := by
  have hx := executes_execution m console
  generalize m.execution console = x at h hx
  cases hx with
  | plain => exact .inl ⟨rfl, rfl, rfl⟩
  | @read port => cases port <;> exact .inl ⟨rfl, rfl, rfl⟩
  | @write port p =>
    cases hanswer : (m.ports.write port m.registers.acc console).answer with
    | error cause =>
      rw [(Execution.fault_ofPortWrite cause).mpr hanswer] at h
      contradiction
    | ok answer =>
      refine .inr ⟨port, answer, hanswer, ?_⟩
      rw [Execution.ofPortWrite_of_ok hanswer]
      exact ⟨rfl, rfl, by rw [Notice.writes_append, Notice.writes_remarks]; rfl⟩

theorem writes_of_fault {cause : Fault} (h : (m.execution console).fault = some cause) :
    Notice.writes (m.execution console).notices = [] := by
  have hx := executes_execution m console
  generalize m.execution console = x at h hx
  cases hx with
  | plain => rfl
  | read => simp [Execution.ofPortRead] at h
  | write =>
    rw [Execution.ofPortWrite_of_error ((Execution.fault_ofPortWrite cause).mp h)]
    exact Notice.writes_remarks _

end Machine

namespace Setting

def writes (s : Setting BufferedConsole) : List (Port × Word) := Notice.writes s.cycle.notices

/-- The fault is a fresh one, not one that was latched before. -/
def raisesReadFault (s : Setting BufferedConsole) : Bool :=
  s.cycle.outcome = .fault .consoleRead ∧ s.machine.runState ≠ .faulted .consoleRead

def receipts (s : Setting BufferedConsole) : List (Option UInt8) :=
  (s.writes.filter fun w => w.1 = .console ∧ bit 10 w.2.toNat = 1).map fun _ =>
    s.console.input.head?

/-- At most one port is written in a cycle. Without a trace, the write has failed. -/
inductive Access (s : Setting BufferedConsole) : Prop
  | none (hwrites : s.writes = []) (hraises : s.raisesReadFault = false)
      (hports : s.next.machine.ports = s.machine.ports) (hconsole : s.next.console = s.console)
  | done {port : Port} {answer : PortWrite}
      (hwrites : s.writes = [(port, s.machine.registers.acc)])
      (hraises : s.raisesReadFault = false)
      (hanswer : (s.machine.ports.write port s.machine.registers.acc s.console).answer =
        .ok answer)
      (hports : s.next.machine.ports =
        (s.machine.ports.write port s.machine.registers.acc s.console).bank)
      (hconsole : s.next.console =
        (s.machine.ports.write port s.machine.registers.acc s.console).console)
  | failed {cause : Fault} (hwrites : s.writes = [])
      (hraises : s.raisesReadFault = decide (cause = .consoleRead))
      (hfails : PortBank.TransferFails s.machine.registers.acc s.console cause)
      (hports : s.next.machine.ports = s.machine.ports)
      (hconsole : s.next.console =
        PortBank.afterFailure s.machine.registers.acc s.console cause)

theorem access (s : Setting BufferedConsole) : s.Access := by
  have hturn := Machine.turns_step s.machine s.console
  generalize hcycle : s.machine.step s.console = c at hturn
  change s.cycle = c at hcycle
  have hwrites : s.writes = Notice.writes c.notices := by rw [writes, hcycle]
  have hraises : s.raisesReadFault =
      decide (c.outcome = .fault .consoleRead ∧ s.machine.runState ≠ .faulted .consoleRead) := by
    rw [raisesReadFault, hcycle]
  have hports : s.next.machine.ports = c.machine.ports := by rw [next, hcycle]
  have hconsole : s.next.console = c.console := by rw [next, hcycle]
  cases hturn with
  | latched hlatched => exact .none hwrites (by simp [hraises, hlatched]) hports hconsole
  | halted | reset => exact .none hwrites (by simp [hraises]) hports hconsole
  | retired hexec hfault =>
    rw [Machine.ports_commit] at hports
    obtain ⟨hports', hconsole', hnone⟩ | ⟨port, answer, hanswer, hports', hconsole', hone⟩ :=
      Machine.execution_of_retired hfault
    · exact .none (hwrites.trans hnone) (by simp [hraises]) (hports.trans hports')
        (hconsole.trans hconsole')
    · exact .done (hwrites.trans hone) (by simp [hraises]) hanswer (hports.trans hports')
        (hconsole.trans hconsole')
  | failed hexec hfault =>
    have hlive := (Machine.executes_eq_true_iff.mp hexec).1
    obtain ⟨-, hfails⟩ := (Machine.fault_execution _ _ _).mp hfault
    obtain ⟨hports', hconsole'⟩ := Machine.execution_of_fault hfault
    refine .failed ?_ (by simp [hraises, hlive]) hfails (hports.trans hports')
      (hconsole.trans hconsole')
    rw [hwrites, Notice.writes_append]
    exact congrArg (· ++ []) (Machine.writes_of_fault hfault)

end Setting

def receivedWord : Option UInt8 → Word
  | some byte => byte.toUInt16
  | none => 0xFFFF

namespace BufferedConsole

variable {console : BufferedConsole} {byte : UInt8}

theorem writeByte_of_error {e : ConsoleError}
    (h : (Console.writeByte console byte).1 = .error e) :
    (Console.writeByte console byte).2 = console := by
  simp only [Console.writeByte, writeByte] at h ⊢
  split at h <;> simp_all

theorem writeByte_of_ok (h : (Console.writeByte console byte).1 = .ok ()) :
    (Console.writeByte console byte).2 = { console with output := console.output.push byte } := by
  simp only [Console.writeByte, writeByte] at h ⊢
  split at h <;> simp_all

theorem readByte_of_error {e : ConsoleError} (h : (Console.readByte console).1 = .error e) :
    (Console.readByte console).2 = console := by
  simp only [Console.readByte, readByte] at h ⊢
  split at h
  · simp_all
  · split at h <;> contradiction

theorem readByte_of_ok {answer : Option UInt8} (h : (Console.readByte console).1 = .ok answer) :
    answer = console.input.head? ∧
      (Console.readByte console).2 = { console with input := console.input.tail } := by
  obtain ⟨input, output, failWrites, failReads⟩ := console
  simp only [Console.readByte, readByte] at h ⊢
  split at h
  · contradiction
  · cases input <;> simp_all

end BufferedConsole

namespace PortBank

variable {bank : PortBank} {value : Word} {console : BufferedConsole} {answer : PortWrite}

theorem receive_of_ok (h : (bank.receive value console).answer = .ok answer) :
    (bank.receive value console).bank =
        (if bit 10 value.toNat = 1 then
          { bank with received := receivedWord console.input.head? }
        else bank) ∧
      (bank.receive value console).console =
        if bit 10 value.toNat = 1 then { console with input := console.input.tail }
        else console := by
  rw [receive, requestsReceive_eq] at h ⊢
  by_cases hreceive : bit 10 value.toNat = 1
  · simp only [hreceive, decide_true, if_true] at h ⊢
    rcases hcall : Console.readByte console with ⟨e | byte, console'⟩
    · simp [hcall] at h
    · obtain ⟨hbyte, hconsole⟩ := BufferedConsole.readByte_of_ok (congrArg Prod.fst hcall)
      rw [hcall] at hconsole
      rw [← hbyte, ← hconsole]
      cases byte <;> exact ⟨rfl, rfl⟩
  · simp [hreceive]

theorem afterTransmit_of_ok
    (h : bit 13 value.toNat = 1 → (Console.writeByte console value.lowByte).1 = .ok ()) :
    afterTransmit value console = if bit 13 value.toNat = 1 then
      { console with output := console.output.push value.lowByte } else console := by
  unfold afterTransmit
  split
  · rename_i htransmit
    exact BufferedConsole.writeByte_of_ok (h htransmit)
  · rfl

theorem transfer_of_ok (h : (bank.transfer value console).answer = .ok answer) :
    (bit 13 value.toNat = 1 → (Console.writeByte console value.lowByte).1 = .ok ()) ∧
      bank.transfer value console = bank.receive value (afterTransmit value console) := by
  rw [transfer_eq] at h ⊢
  split at h
  · rename_i htransmit
    cases hwrite : (Console.writeByte console value.lowByte).1 with
    | error e => simp [hwrite] at h
    | ok => simp [htransmit]
  · rename_i htransmit
    simp [htransmit, afterTransmit]

end PortBank

def sent (writes : List (Port × Word)) : List UInt8 :=
  (writes.filter fun w => w.1 = .console ∧ bit 13 w.2.toNat = 1).map fun w => w.2.lowByte

def shown (writes : List (Port × Word)) : List Word :=
  (writes.filter fun w => w.1 = .switches).map Prod.snd

namespace Setting

def excess (s : Setting BufferedConsole) : List UInt8 :=
  if s.raisesReadFault ∧ bit 13 s.machine.registers.acc.toNat = 1 then
    [s.machine.registers.acc.lowByte]
  else []

/-- The traffic between `s` and `t`. What is sent in excess is not traced. -/
structure Balance (s t : Setting BufferedConsole) (writes : List (Port × Word))
    (receipts : List (Option UInt8)) (excess : List UInt8) : Prop where
  output_eq : t.console.output.toList = s.console.output.toList ++ sent writes ++ excess
  input_eq : s.console.input = receipts.filterMap id ++ t.console.input
  received_eq : t.machine.ports.received =
    (receipts.map receivedWord).getLast?.getD s.machine.ports.received
  leds_eq : t.machine.ports.leds = (shown writes).getLast?.getD s.machine.ports.leds
  switches_eq : t.machine.ports.switches = s.machine.ports.switches

variable {s t u : Setting BufferedConsole} {writes writes' : List (Port × Word)}
  {receipts receipts' : List (Option UInt8)} {excess : List UInt8}

theorem Balance.of_eq (hports : t.machine.ports = s.machine.ports)
    (hconsole : t.console = s.console) : Balance s t [] [] [] := by
  constructor <;> simp [hports, hconsole, sent, shown]

theorem Balance.trans (h : Balance s t writes receipts [])
    (h' : Balance t u writes' receipts' excess) :
    Balance s u (writes ++ writes') (receipts ++ receipts') excess where
  output_eq := by
    rw [h'.output_eq, h.output_eq]
    simp [sent]
  input_eq := by
    rw [h.input_eq, h'.input_eq]
    simp
  received_eq := by
    rw [h'.received_eq, h.received_eq, List.map_append, List.getLast?_append,
      Option.getD_or]
  leds_eq := by
    have happend : shown (writes ++ writes') = shown writes ++ shown writes' := by simp [shown]
    rw [h'.leds_eq, h.leds_eq, happend, List.getLast?_append, Option.getD_or]
  switches_eq := h'.switches_eq.trans h.switches_eq

theorem receipts_of_writes_nil (hwrites : s.writes = []) : s.receipts = [] := by
  rw [Setting.receipts, hwrites]
  rfl

theorem balance_of_transfer {answer : PortWrite}
    (hwrites : s.writes = [(.console, s.machine.registers.acc)])
    (hanswer : (s.machine.ports.transfer s.machine.registers.acc s.console).answer = .ok answer)
    (hports : s.next.machine.ports =
      (s.machine.ports.transfer s.machine.registers.acc s.console).bank)
    (hconsole : s.next.console =
      (s.machine.ports.transfer s.machine.registers.acc s.console).console) :
    Balance s s.next s.writes s.receipts [] := by
  obtain ⟨hwrite, htransfer⟩ := PortBank.transfer_of_ok hanswer
  rw [htransfer] at hanswer hports hconsole
  obtain ⟨hbank, hqueue⟩ := PortBank.receive_of_ok hanswer
  rw [hbank] at hports
  rw [hqueue] at hconsole
  rw [PortBank.afterTransmit_of_ok hwrite] at hports hconsole
  rw [Setting.receipts, hwrites]
  -- the word asks for a transmission or not, and for a reception or not
  by_cases htransmit : bit 13 s.machine.registers.acc.toNat = 1 <;>
    by_cases hreceive : bit 10 s.machine.registers.acc.toNat = 1 <;>
    simp only [htransmit, hreceive, if_true, if_false] at hports hconsole
  all_goals
    cases hinput : s.console.input <;>
      constructor <;> simp [hports, hconsole, hinput, sent, shown, htransmit, hreceive]

theorem balance_next (s : Setting BufferedConsole) :
    Balance s s.next s.writes s.receipts s.excess := by
  have hacc : s.raisesReadFault = false → s.excess = [] := by
    intro hraises
    simp [Setting.excess, hraises]
  cases s.access with
  | none hwrites hraises hports hconsole =>
    rw [receipts_of_writes_nil hwrites, hwrites, hacc hraises]
    exact .of_eq hports hconsole
  | @done port answer hwrites hraises hanswer hports hconsole =>
    rw [hacc hraises]
    cases port with
    | console => exact balance_of_transfer hwrites hanswer hports hconsole
    | _ =>
      constructor <;>
        simp [Setting.receipts, hwrites, hports, hconsole, sent, shown, PortBank.write]
  | @failed cause hwrites hraises hfails hports hconsole =>
    rw [receipts_of_writes_nil hwrites, hwrites]
    cases cause with
    | consoleWrite =>
      obtain ⟨-, e, hwrite⟩ := hfails
      rw [hacc (by simp [hraises])]
      exact .of_eq hports (hconsole.trans (BufferedConsole.writeByte_of_error hwrite))
    | consoleRead =>
      obtain ⟨-, hwrite, e, hread⟩ := hfails
      rw [PortBank.afterFailure, BufferedConsole.readByte_of_error hread,
        PortBank.afterTransmit_of_ok hwrite] at hconsole
      rw [Setting.excess]
      by_cases htransmit : bit 13 s.machine.registers.acc.toNat = 1 <;>
        simp only [htransmit, if_true, if_false] at hconsole <;>
        constructor <;> simp [hports, hconsole, sent, shown, hraises, htransmit]

def lastExcess (s : Setting BufferedConsole) (n : Nat) : List UInt8 :=
  match (s.course n).find? raisesReadFault with
  | some t => t.excess
  | none => []

theorem writes_next_of_raises (hraises : s.raisesReadFault = true) : s.next.writes = [] := by
  have houtcome : s.cycle.outcome = .fault .consoleRead := by
    rw [raisesReadFault, decide_eq_true_eq] at hraises
    exact hraises.1
  have hlatched : s.next.machine.runState = .faulted .consoleRead := by
    have hstate : s.next.machine.runState = s.cycle.outcome.runState :=
      Machine.runState_step _ _
    rw [hstate, houtcome]
    rfl
  rw [Setting.writes, cycle, Machine.step_of_faulted hlatched]
  rfl

theorem balance_of_raises (hraises : s.raisesReadFault = true) (n : Nat) :
    Balance s (next^[n + 1] s) ((s.course (n + 1)).flatMap Setting.writes)
      ((s.course (n + 1)).flatMap Setting.receipts) (s.lastExcess (n + 1)) := by
  have hstop : s.cycle.outcome ≠ .continuing := by
    rw [raisesReadFault, decide_eq_true_eq] at hraises
    simp [hraises.1]
  have hfixed := (cycle_of_stopped hstop).2
  have hwrites := writes_next_of_raises hraises
  have hreceipts := receipts_of_writes_nil hwrites
  have hexcess : s.lastExcess (n + 1) = s.excess := by
    rw [lastExcess, course_succ, List.find?_cons_of_pos hraises]
  rw [hexcess, Function.iterate_succ_apply, Function.iterate_fixed hfixed, course_succ,
    course_of_next_eq hfixed]
  simpa [List.flatMap_replicate, hwrites, hreceipts] using balance_next s

/-- After any number of cycles the trace accounts for the output, the input that was taken, the
received register and the lights. The switches stay. -/
theorem io_balanced (s : Setting BufferedConsole) (n : Nat) :
    Balance s (next^[n] s) ((s.course n).flatMap Setting.writes)
      ((s.course n).flatMap Setting.receipts) (s.lastExcess n) := by
  induction n generalizing s with
  | zero => exact .of_eq rfl rfl
  | succ n ih =>
    cases hraises : s.raisesReadFault with
    | true => exact balance_of_raises hraises n
    | false =>
      have hhead : Balance s s.next s.writes s.receipts [] := by
        have hnone : s.excess = [] := by simp [Setting.excess, hraises]
        rw [← hnone]
        exact balance_next s
      have hexcess : s.lastExcess (n + 1) = s.next.lastExcess n := by
        rw [lastExcess, course_succ, List.find?_cons_of_neg (by simp [hraises]), lastExcess]
      rw [hexcess, Function.iterate_succ_apply, course_succ, List.flatMap_cons,
        List.flatMap_cons]
      exact hhead.trans (ih s.next)

end Setting

end WordMachine
