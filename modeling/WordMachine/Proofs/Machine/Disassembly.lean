import WordMachine.Console.Buffered
import WordMachine.Disassembly
import WordMachine.Machine.Execution
import WordMachine.Proofs.Machine.Course
import WordMachine.Proofs.Text.Numerals
import WordMachine.Proofs.Word.Numeric

/-!
# What a disassembled text tells

A text shows the opcode and, of the operand, what the instruction makes use of: a `set` or a `get`
the target that it selects, all others the whole operand. Words of one text therefore do the same.
Where the operand selects a port, a direct transfer does the same as a `set` or a `get`.
-/

namespace WordMachine

namespace Instruction

inductive Detail
  | operand (operand : Word)
  | target (target : SystemTarget)
  deriving DecidableEq

def detail (i : Instruction) : Detail :=
  if i.opcode.operandClass = .system then .target i.systemTarget else .operand i.operand

end Instruction

namespace Machine

variable {κ : Type} [Console κ]

theorem execute_of_detail_eq (m : Machine) {i i' : Instruction} (hopcode : i.opcode = i'.opcode)
    (hdetail : i.detail = i'.detail) (console : κ) :
    m.execute i console = m.execute i' console := by
  unfold Instruction.detail at hdetail
  rw [← hopcode] at hdetail
  by_cases hsystem : i.opcode.operandClass = .system
  · rw [if_pos hsystem, if_pos hsystem] at hdetail
    have htarget : i.systemTarget = i'.systemTarget := Instruction.Detail.target.inj hdetail
    cases op : i.opcode <;> simp only [op, Opcode.operandClass, reduceCtorEq] at hsystem
    all_goals simp only [execute, op, ← hopcode, htarget]
  · rw [if_neg hsystem, if_neg hsystem] at hdetail
    have hoperand : i.operand = i'.operand := Instruction.Detail.operand.inj hdetail
    obtain ⟨opcode, operand⟩ := i
    obtain ⟨opcode', operand'⟩ := i'
    obtain rfl : opcode = opcode' := hopcode
    obtain rfl : operand = operand' := hoperand
    rfl

end Machine

theorem Port.index_text_injective : Function.Injective fun p : Port => toString p.index := by
  intro p p' h
  have hdigits : Nat.toDigits 10 p.index = Nat.toDigits 10 p'.index := by
    simpa using congrArg String.toList h
  have hindex := congrArg (Nat.ofDigitChars 10 · 0) hdigits
  simp only [Nat.ofDigitChars_toDigits (by decide : 1 < 10) (by decide)] at hindex
  exact Function.LeftInverse.injective Port.select_index hindex

def endsMnemonic (c : Char) : Bool := c = '.' || c = ' '

namespace Instruction.Detail

def shown : Detail → List Char
  | .operand o => ' ' :: '$' :: Text.Hex.digits 3 o.toNat
  | .target (.port port) => '.' :: "port ".toList ++ (toString port.index).toList
  | .target .flags => '.' :: "flags".toList
  | .target .programCounter => '.' :: "pc".toList

theorem exists_shown_eq_cons (d : Detail) : ∃ c cs, d.shown = c :: cs ∧ endsMnemonic c = true := by
  rcases d with operand | _ | _ | _
  · exact ⟨' ', _, rfl, rfl⟩
  all_goals exact ⟨'.', _, rfl, rfl⟩

def Short : Detail → Prop
  | .operand o => o ≤ operandMask
  | .target _ => True

theorem shown_target_inj {t t' : SystemTarget} :
    (target t).shown = (target t').shown ↔ t = t' := by
  cases t with
  | port port =>
    cases t' with
    | port port' =>
      simp only [shown, List.append_right_inj, String.toList_inj, SystemTarget.port.injEq]
      exact Port.index_text_injective.eq_iff
    | flags => simp [shown]
    | programCounter => simp [shown]
  | flags => cases t' <;> simp [shown]
  | programCounter => cases t' <;> simp [shown]

theorem shown_inj {d d' : Detail} (hd : d.Short) (hd' : d'.Short) :
    d.shown = d'.shown ↔ d = d' := by
  refine ⟨fun h => ?_, fun h => by rw [h]⟩
  cases d with
  | operand o =>
    cases d' with
    | operand o' =>
      have hlt : o.toNat ≤ 4095 := hd
      have hlt' : o'.toNat ≤ 4095 := hd'
      have hdigits : Text.Hex.digits 3 o.toNat = Text.Hex.digits 3 o'.toNat := by
        simpa [shown] using h
      rw [(Text.Hex.digits_inj (by decide) (by omega) (by omega)).mp hdigits]
    | target t' => cases t' <;> simp [shown] at h
  | target t =>
    cases d' with
    | operand o' => cases t <;> simp [shown] at h
    | target t' => rw [shown_target_inj.mp h]

end Instruction.Detail

theorem Instruction.short_detail (w : Word) : (decode w).detail.Short := by
  rw [detail]
  split
  · trivial
  · exact operand_decode_le w

theorem toList_disassemble (w : Word) :
    (disassemble w).toList = (Instruction.decode w).opcode.mnemonic.toList ++
      (Instruction.decode w).detail.shown := by
  simp only [disassemble, DisassemblyRow.ofWord, Instruction.detail]
  cases hclass : (Instruction.decode w).opcode.operandClass with
  | system =>
    cases htarget : (Instruction.decode w).systemTarget with
    | port port => simp [DisassemblyRow.text, Instruction.Detail.shown]
    | flags => simp [DisassemblyRow.text, Instruction.Detail.shown]
    | programCounter => simp [DisassemblyRow.text, Instruction.Detail.shown]
  | _ => simp [DisassemblyRow.text, Instruction.Detail.shown, Text.Hex.padded]

theorem takeWhile_mnemonic_append (op : Opcode) (d : Instruction.Detail) :
    (op.mnemonic.toList ++ d.shown).takeWhile (fun c => !endsMnemonic c) = op.mnemonic.toList := by
  have hall : op.mnemonic.toList.all (fun c => !endsMnemonic c) = true := by
    cases op <;> decide
  have hmnemonic : ∀ c ∈ op.mnemonic.toList, (!endsMnemonic c) = true := List.all_eq_true.mp hall
  obtain ⟨c, cs, hshown, hc⟩ := d.exists_shown_eq_cons
  rw [List.takeWhile_append_of_pos hmnemonic, hshown, List.takeWhile_cons_of_neg (by simp [hc]),
    List.append_nil]

/-- Two words have one text just if they have one opcode and the same detail. -/
theorem disassemble_eq_iff (w w' : Word) : disassemble w = disassemble w' ↔
    (Instruction.decode w).opcode = (Instruction.decode w').opcode ∧
      (Instruction.decode w).detail = (Instruction.decode w').detail := by
  rw [← String.toList_inj, toList_disassemble, toList_disassemble]
  constructor
  · intro h
    -- the mnemonic is what comes before the first point or blank
    have hmnemonic := congrArg (List.takeWhile fun c => !endsMnemonic c) h
    rw [takeWhile_mnemonic_append, takeWhile_mnemonic_append, String.toList_inj] at hmnemonic
    have hopcode := congrArg Opcode.ofMnemonic? hmnemonic
    rw [Opcode.ofMnemonic?_mnemonic, Opcode.ofMnemonic?_mnemonic, Option.some.injEq] at hopcode
    rw [hopcode] at h
    exact ⟨hopcode, (Instruction.Detail.shown_inj (Instruction.short_detail w)
      (Instruction.short_detail w')).mp (List.append_cancel_left h)⟩
  · rintro ⟨hopcode, hdetail⟩
    rw [hopcode, hdetail]

theorem selectsPort_and_operandMask (operand : Word) :
    selectsPort (operand &&& operandMask) = selectsPort operand := by
  have hmask : operandMask &&& ioSelect = ioSelect := by decide
  rw [selectsPort, selectsPort, UInt16.and_assoc, hmask]

theorem Address.translate_and_operandMask (operand : Word) (size : MemorySize) :
    translate (operand &&& operandMask) size = translate operand size := by
  rw [translate, translate, virtual, virtual, selectsPort_and_operandMask, UInt16.and_assoc operand,
    UInt16.and_self]

theorem Port.select_mod (n : Nat) : select (n % 4096) = select n := by
  rw [select, select, Nat.mod_mod_of_dvd n (by decide)]

theorem ports_agree {operand : Word} (h : operand.toNat.testBit 11 = true) (size : MemorySize) :
    Address.translate operand size = .port (Port.select operand.toNat) ∧
      SystemTarget.ofOperand operand = .port (Port.select operand.toNat) := by
  have hbit : Numeric.bit 11 operand.toNat = 1 := by
    rw [Numeric.bit_eq_toNat_testBit, h]
    rfl
  have hselects : selectsPort operand = true := by simp [Numeric.selectsPort_eq, hbit]
  have hlow : Numeric.bit 11 (operand &&& operandMask).toNat = 1 := by
    simpa [Numeric.selectsPort_eq] using (selectsPort_and_operandMask operand).trans hselects
  have hlt : (operand &&& operandMask).toNat < 4096 := by
    rw [toNat_and_operandMask]
    omega
  constructor
  · rw [← Address.translate_and_operandMask, Numeric.translate_eq hlt, if_pos hlow,
      toNat_and_operandMask, Port.select_mod]
  · rw [SystemTarget.ofOperand, if_pos hselects]

namespace Machine

/-- Words of one text do the same. An operand that selects a port is the same to a direct transfer
as to a `set` or a `get`. -/
theorem text_determines_execution :
    (∀ w w' : Word, disassemble w = disassemble w' →
      ∀ {κ : Type} [Console κ] (m : Machine) (console : κ),
        m.execute (Instruction.decode w) console = m.execute (Instruction.decode w') console) ∧
    ∀ operand : Word, operand.toNat.testBit 11 = true →
      ∀ {κ : Type} [Console κ] (m : Machine) (console : κ),
        m.execute ⟨.storeDirect, operand⟩ console = m.execute ⟨.set, operand⟩ console ∧
          m.execute ⟨.loadDirect, operand⟩ console = m.execute ⟨.get, operand⟩ console := by
  constructor
  · intro w w' htext κ _ m console
    obtain ⟨hopcode, hdetail⟩ := (disassemble_eq_iff w w').mp htext
    exact m.execute_of_detail_eq hopcode hdetail console
  · intro operand hports κ _ m console
    obtain ⟨haddress, htarget⟩ := ports_agree hports m.memory.size
    constructor <;> simp only [execute, Instruction.systemTarget, haddress, htarget]

theorem text_determines_execution_ports :
    let m := (holding #[]).setAcc 0x2041
    let console := BufferedConsole.ofInput []
    disassemble 0xE801 = disassemble 0xE8F9 ∧
      m.execute (Instruction.decode 0xE801) console =
        m.execute (Instruction.decode 0xE8F9) console ∧
      m.execute ⟨.storeDirect, 0x8F9⟩ console = m.execute ⟨.set, 0x8F9⟩ console ∧
      (m.execute ⟨.storeDirect, 0x8F9⟩ console).console.output = #[0x41] := by
  intro m console
  have htext : disassemble 0xE801 = disassemble 0xE8F9 := by decide
  obtain ⟨hwords, hports⟩ := text_determines_execution
  exact ⟨htext, hwords _ _ htext m console, (hports 0x8F9 (by decide) m console).1, by decide⟩

end Machine

end WordMachine
