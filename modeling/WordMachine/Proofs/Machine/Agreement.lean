import WordMachine.Console.Stream
import WordMachine.Proofs.Machine.Accounts
import WordMachine.Proofs.Machine.Twins

/-!
# Consoles that agree

Two consoles of different kinds mirror each other if writes and reads are answered alike, from then
on as well. Only the question whether input is ready can tell them apart, and only a read of port 1
asks it. A buffered console with some input is mirrored by a stream console whose reader yields the
same bytes and then ends, and whose writer takes every byte.
-/

namespace WordMachine

variable {κ κ' : Type} [Console κ] [Console κ'] {R : κ → κ' → Prop} {console : κ} {console' : κ'}
  {bank : PortBank} {acc : Word}

namespace Console

inductive Alike {α : Type} (R : κ → κ' → Prop) : α × κ → α × κ' → Prop
  | intro (answer : α) {next : κ} {next' : κ'} (h : R next next') :
    Alike R (answer, next) (answer, next')

omit [Console κ] [Console κ'] in
theorem Alike.of_eq {α : Type} {call : α × κ} {call' : α × κ'} {answer : α}
    (h : call.1 = answer) (h' : call'.1 = answer) (hnext : R call.2 call'.2) :
    Alike R call call' := by
  obtain ⟨answer, next⟩ := call
  obtain ⟨_, next'⟩ := call'
  obtain rfl := h
  obtain rfl := h'
  exact .intro _ hnext

structure Mirrors (R : κ → κ' → Prop) : Prop where
  write : ∀ {console console'}, R console console' →
    ∀ byte, Alike R (writeByte console byte) (writeByte console' byte)
  read : ∀ {console console'}, R console console' → Alike R (readByte console) (readByte console')

end Console

structure PortTransfer.Twins (R : κ → κ' → Prop) (t : PortTransfer κ) (t' : PortTransfer κ') :
    Prop where
  answer_eq : t'.answer = t.answer
  bank_eq : t'.bank = t.bank
  remarks_eq : t'.remarks = t.remarks
  console : R t.console t'.console

namespace PortBank

theorem twins_receive (hR : Console.Mirrors R) (h : R console console') (bank : PortBank)
    (value : Word) :
    (bank.receive value console).Twins R (bank.receive value console') := by
  unfold receive
  split
  · have hread := hR.read h
    generalize Console.readByte console = call at hread ⊢
    generalize Console.readByte console' = call' at hread ⊢
    obtain ⟨answer, hnext⟩ := hread
    rcases answer with _ | _ | _ <;> exact ⟨rfl, rfl, rfl, hnext⟩
  · exact ⟨rfl, rfl, rfl, h⟩

theorem twins_write (hR : Console.Mirrors R) (h : R console console') (bank : PortBank)
    (port : Port) (value : Word) :
    (bank.write port value console).Twins R (bank.write port value console') := by
  cases port with
  | console =>
    simp only [write, transfer]
    split
    · have hwrite := hR.write h value.lowByte
      generalize Console.writeByte console value.lowByte = call at hwrite ⊢
      generalize Console.writeByte console' value.lowByte = call' at hwrite ⊢
      obtain ⟨answer, hnext⟩ := hwrite
      cases answer with
      | error e => exact ⟨rfl, rfl, rfl, hnext⟩
      | ok => exact twins_receive hR hnext bank value
    · exact twins_receive hR h bank value
  | _ => exact ⟨rfl, rfl, rfl, h⟩

end PortBank

def Behind (R : κ → κ' → Prop) (x : PortBank × κ) (x' : PortBank × κ') : Prop :=
  x'.1 = x.1 ∧ R x.2 x'.2

theorem PortUse.twins_of_mirrors (hR : Console.Mirrors R) (h : R console console') (u : PortUse)
    (hready : (∃ value, .event (.portRead .console value) ∈ (u.execution acc bank console).notices) →
      Console.Alike R (Console.inputReady console) (Console.inputReady console')) :
    (u.execution acc bank console).Twins (Behind R) (u.execution acc bank console') := by
  cases u with
  | none p => exact ⟨rfl, rfl, rfl, rfl, h⟩
  | read port p =>
    cases port with
    | console =>
      have hasked := hready ⟨_, List.mem_singleton_self _⟩
      simp only [execution, Execution.ofPortRead, PortBank.read]
      generalize Console.inputReady console = call at hasked ⊢
      generalize Console.inputReady console' = call' at hasked ⊢
      obtain ⟨ready, hnext⟩ := hasked
      exact ⟨rfl, rfl, rfl, rfl, hnext⟩
    | _ => exact ⟨rfl, rfl, rfl, rfl, h⟩
  | write port p =>
    obtain ⟨hanswer, hbank, hremarks, hconsole⟩ := PortBank.twins_write hR h bank port acc
    cases hwrite : (bank.write port acc console).answer with
    | error cause =>
      rw [execution, execution, Execution.ofPortWrite_of_error hwrite,
        Execution.ofPortWrite_of_error (hanswer.trans hwrite), hremarks]
      exact ⟨rfl, rfl, rfl, hbank, hconsole⟩
    | ok answer =>
      rw [execution, execution, Execution.ofPortWrite_of_ok hwrite,
        Execution.ofPortWrite_of_ok (hanswer.trans hwrite), hremarks]
      exact ⟨rfl, rfl, rfl, hbank, hconsole⟩

namespace StreamConsole

/-- The reader yields the bytes and then its end, the writer takes everything. Either may be
interrupted on the way. -/
structure Offers (c : StreamConsole) (bytes : List UInt8) : Prop where
  reads : ∃ n, c.reads.filter (· ≠ .interrupted) =
    bytes.map .byte ++ List.replicate n .ended
  writes : ∀ answer ∈ c.writes, answer = .accepted ∨ answer = .interrupted
  flushes : ∀ answer ∈ c.flushes, answer = .done

theorem nextByte_filter (reads : List ReadAnswer) :
    nextByte (reads.filter (· ≠ .interrupted)) =
      ((nextByte reads).1, (nextByte reads).2.filter (· ≠ .interrupted)) := by
  induction reads with
  | nil => rfl
  | cons answer rest ih =>
    cases answer with
    | interrupted => simpa [nextByte] using ih
    | _ => simp [nextByte]

theorem offer_of_willing {writes : List WriteAnswer}
    (h : ∀ answer ∈ writes, answer = .accepted ∨ answer = .interrupted) :
    (offer writes).1 = .ok () ∧
      ∀ answer ∈ (offer writes).2, answer = .accepted ∨ answer = .interrupted := by
  induction writes with
  | nil => exact ⟨rfl, h⟩
  | cons answer rest ih =>
    rw [List.forall_mem_cons] at h
    obtain ⟨rfl | rfl, hrest⟩ := h
    · exact ⟨rfl, hrest⟩
    · exact ih hrest

theorem flush_of_done {flushes : List FlushAnswer} (h : ∀ answer ∈ flushes, answer = .done) :
    (flush flushes).1 = .ok () ∧ ∀ answer ∈ (flush flushes).2, answer = .done := by
  cases flushes with
  | nil => exact ⟨rfl, h⟩
  | cons answer rest =>
    rw [List.forall_mem_cons] at h
    obtain ⟨rfl, hrest⟩ := h
    exact ⟨rfl, hrest⟩

variable {c : StreamConsole} {bytes : List UInt8}

theorem Offers.readByte (h : c.Offers bytes) :
    (Console.readByte c).1 = .ok bytes.head? ∧ (Console.readByte c).2.Offers bytes.tail ∧
      (Console.readByte c).2.output = c.output := by
  obtain ⟨⟨n, hreads⟩, hwrites, hflushes⟩ := h
  have hnext := nextByte_filter c.reads
  rw [hreads] at hnext
  cases bytes with
  | nil =>
    cases n with
    | zero =>
      obtain ⟨hanswer, hrest⟩ := Prod.mk.inj hnext
      exact ⟨hanswer.symm, ⟨⟨0, hrest.symm⟩, hwrites, hflushes⟩, rfl⟩
    | succ n =>
      obtain ⟨hanswer, hrest⟩ := Prod.mk.inj hnext
      exact ⟨hanswer.symm, ⟨⟨n, hrest.symm⟩, hwrites, hflushes⟩, rfl⟩
  | cons byte bytes =>
    obtain ⟨hanswer, hrest⟩ := Prod.mk.inj hnext
    exact ⟨hanswer.symm, ⟨⟨n, hrest.symm⟩, hwrites, hflushes⟩, rfl⟩

theorem Offers.writeByte (h : c.Offers bytes) (byte : UInt8) :
    (Console.writeByte c byte).1 = .ok () ∧ (Console.writeByte c byte).2.Offers bytes ∧
      (Console.writeByte c byte).2.output = c.output.push byte := by
  obtain ⟨hoffer, hwrites⟩ := offer_of_willing h.writes
  obtain ⟨hflush, hflushes⟩ := flush_of_done h.flushes
  simp only [Console.writeByte, StreamConsole.writeByte]
  rcases hoffered : offer c.writes with ⟨answer, writes⟩
  rw [hoffered] at hoffer hwrites
  obtain rfl : answer = .ok () := hoffer
  exact ⟨hflush, ⟨h.reads, hwrites, hflushes⟩, rfl⟩

/-- The stream has written what the buffer holds, after what it had written before. -/
structure Mirrors (before : List UInt8) (b : BufferedConsole) (c : StreamConsole) : Prop where
  willing : b.failWrites = false ∧ b.failReads = false
  offers : c.Offers b.input
  output_eq : c.output.toList = before ++ b.output.toList

theorem mirrors (before : List UInt8) : Console.Mirrors (Mirrors before) where
  write := by
    rintro b c ⟨⟨hwrites, hreads⟩, hoffers, houtput⟩ byte
    obtain ⟨hanswer, hoffers', houtput'⟩ := hoffers.writeByte byte
    have hb : (Console.writeByte b byte).1 = .ok () :=
      (BufferedConsole.neverFails hwrites hreads b .refl).1 byte
    refine .of_eq hb hanswer ?_
    rw [BufferedConsole.writeByte_of_ok hb]
    refine ⟨⟨hwrites, hreads⟩, hoffers', ?_⟩
    rw [houtput', Array.toList_push, houtput, Array.toList_push, List.append_assoc]
  read := by
    rintro b c ⟨⟨hwrites, hreads⟩, hoffers, houtput⟩
    obtain ⟨hanswer, hoffers', houtput'⟩ := hoffers.readByte
    obtain ⟨answer, hb⟩ := (BufferedConsole.neverFails hwrites hreads b .refl).2
    obtain ⟨rfl, hnext⟩ := BufferedConsole.readByte_of_ok hb
    refine .of_eq hb hanswer ?_
    rw [hnext]
    exact ⟨⟨hwrites, hreads⟩, hoffers', by rw [houtput', houtput]⟩

end StreamConsole

def Event.isConsoleRead : Event → Bool
  | portRead port _ => port = .console
  | _ => false

def Setting.readsConsole (s : Setting κ) : Bool :=
  s.cycle.notices.any fun n => n.event?.any Event.isConsoleRead

omit [Console κ] [Console κ'] in
theorem Run.Twins.machine_eq {r : Run κ} {r' : Run κ'} (h : r.Twins (Behind R) r') :
    r'.machine = r.machine :=
  h.setting.machine_eq.trans (congrArg r.machine.withPorts h.setting.behind.1)

namespace Machine

theorem readsConsole_of_mem {m : Machine} (hexec : m.executes = true)
    (h : ∃ value, .event (.portRead .console value) ∈ (m.execution console).notices) :
    Setting.readsConsole ⟨m, console⟩ = true := by
  obtain ⟨value, hmem⟩ := h
  refine List.any_eq_true.mpr ⟨.event (.portRead .console value), ?_, ?_⟩
  case refine_2 => simp [Notice.event?, Event.isConsoleRead]
  simp only [Setting.cycle]
  cases hfault : (m.execution console).fault with
  | none =>
    rw [step_of_turns (.retired hexec hfault)]
    exact List.mem_cons_of_mem _ hmem
  | some cause =>
    rw [step_of_turns (.failed hexec hfault)]
    exact List.mem_append_left _ (List.mem_cons_of_mem _ hmem)

/-- A run at a buffered console that never reads port 1 without input is the same at a stream
console that yields the same bytes, then ends, and takes all that is written to it. It is written
the same bytes. -/
theorem consoles_agree (keep : Notice → Bool) (budget : Option Nat) (m : Machine)
    (bytes : List UInt8) (console : StreamConsole) (hoffers : console.Offers bytes)
    (hready : ∀ s ∈ Setting.course ⟨m, BufferedConsole.ofInput bytes⟩
      (m.run keep budget (BufferedConsole.ofInput bytes)).steps,
        s.readsConsole = true → s.console.input ≠ []) :
    let r := m.run keep budget (BufferedConsole.ofInput bytes)
    let r' := m.run keep budget console
    r'.cycles = r.cycles ∧ r'.outcome = r.outcome ∧ r'.notices = r.notices ∧
      r'.machine = r.machine ∧
      r'.console.output.toList = console.output.toList ++ r.console.output.toList := by
  intro r r'
  let R := StreamConsole.Mirrors console.output.toList
  have hstart : Setting.Twins (Behind R) ⟨m, BufferedConsole.ofInput bytes⟩ ⟨m, console⟩ :=
    ⟨rfl, rfl, ⟨rfl, rfl⟩, hoffers, by simp [BufferedConsole.ofInput]⟩
  have hexec : ∀ t ∈ Setting.course ⟨m, BufferedConsole.ofInput bytes⟩ r.steps,
      ∀ t' : Setting StreamConsole, t.Twins (Behind R) t' → t.machine.executes = true →
        t.execution.Twins (Behind R) t'.execution := by
    intro t ht t' htwins hexec
    obtain ⟨u, hu, hu'⟩ := htwins.exists_use
    obtain ⟨hbank, hconsole⟩ := htwins.behind
    simp only at hbank hconsole
    rw [hu, hu', hbank]
    refine u.twins_of_mirrors (StreamConsole.mirrors _) hconsole fun hread => ?_
    -- with input both are ready
    rw [← hu] at hread
    have hinput := hready t ht (readsConsole_of_mem hexec hread)
    have hwaiting : (Console.inputReady t.console).1 = true := by
      simpa [Console.inputReady] using hinput
    exact .of_eq hwaiting rfl hconsole
  have htwins : r.Twins (Behind R) r' := hstart.run keep budget hexec
  exact ⟨htwins.cycles_eq, htwins.outcome_eq, htwins.notices_eq, htwins.machine_eq,
    htwins.setting.behind.2.output_eq⟩

theorem consoles_agree_ended :
    let r := (holding #[0x8801, 0x8006, 0x9801, 0x9801, 0, 0, 0x2441]).run (fun _ => true) (some 9)
      (BufferedConsole.ofInput [0x41])
    let r' := (holding #[0x8801, 0x8006, 0x9801, 0x9801, 0, 0, 0x2441]).run (fun _ => true) (some 9)
      ({ reads := [.interrupted, .byte 0x41] } : StreamConsole)
    r'.cycles = 4 ∧ r'.outcome = .halted ∧ r'.notices = r.notices ∧
      r'.console.output.toList = [0x41, 0x41] := by
  intro r r'
  have hcycles : r.cycles = 4 := by decide
  have houtcome : r.outcome = .halted := by decide
  have houtput : r.console.output.toList = [0x41, 0x41] := by decide
  obtain ⟨hcycles', houtcome', hnotices, -, houtput'⟩ := consoles_agree (fun _ => true) (some 9)
    (holding #[0x8801, 0x8006, 0x9801, 0x9801, 0, 0, 0x2441]) [0x41]
    { reads := [.interrupted, .byte 0x41] } ⟨⟨0, rfl⟩, by simp, by simp⟩ (by decide)
  refine ⟨hcycles'.trans hcycles, houtcome'.trans houtcome, hnotices, ?_⟩
  rw [houtput', houtput]
  rfl

end Machine

end WordMachine
