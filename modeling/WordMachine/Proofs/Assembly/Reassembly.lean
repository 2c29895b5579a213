import WordMachine.Proofs.Assembly.Renaming
import WordMachine.Proofs.Assembly.Resolution
import WordMachine.Proofs.Text.Numerals
import WordMachine.Proofs.Text.Splitting

/-!
# Disassembled programs

A word can be written as a number, and a word that is no `set` and no `get` also as it is
disassembled. A source with one such line for each word assembles to these words, if there is space.
A `set` or a `get` is disassembled to a line that the assembler does not take.
-/

namespace WordMachine.Assembly

theorem isField_of_all {s : String}
    (h : (!s.toList.isEmpty && s.toList.all fun c => !Text.isBlank c && !startsComment c) = true) :
    IsField s := by
  simpa [IsField] using h

theorem tokenize_of_isField {s : String} (hs : IsField s) : tokenize s = [s] := by
  have hfields : ∀ f ∈ [s], IsField f := by simpa using hs
  simpa using tokenize_intercalate hfields

theorem tokenize_pair {s t : String} (hs : IsField s) (ht : IsField t) :
    tokenize (s ++ " " ++ t) = [s, t] := by
  have hfields : ∀ f ∈ [s, t], IsField f := by
    simpa using ⟨hs, ht⟩
  simpa [String.intercalate_cons_cons] using tokenize_intercalate hfields

theorem unbroken_of_isField {s : String} (hs : IsField s) : Text.Unbroken s := by
  intro c hc
  have hblank := (hs.2 c hc).1
  constructor <;> rintro rfl <;> exact absurd hblank (by decide)

theorem unbroken_pair {s t : String} (hs : IsField s) (ht : IsField t) :
    Text.Unbroken (s ++ " " ++ t) := by
  have hchars : (s ++ " " ++ t).toList = s.toList ++ ' ' :: t.toList := by simp
  rw [Text.Unbroken, hchars]
  exact List.forall_mem_append.mpr ⟨unbroken_of_isField hs,
    List.forall_mem_cons.mpr ⟨by decide, unbroken_of_isField ht⟩⟩

/-- The line is the word as a number, or as it is disassembled. -/
inductive Renders : String → Word → Prop
  | number {cs : List Char} {w : Word} (h : Text.Hex.Spells cs w.toNat) :
      Renders (String.ofList ('$' :: cs)) w
  | disassembled {w : Word} (h : w.toNat / 4096 < 14) : Renders (disassemble w) w

variable {cs : List Char} {w x : Word} {words : List Word} {line : String}
  {lines rest : List String} {here : Location} {d : Draft} {config : Config} {source : String}

theorem isField_number {n : Nat} (h : Text.Hex.Spells cs n) :
    IsField (String.ofList ('$' :: cs)) := by
  have hcs : ∀ c ∈ cs, (!Text.isBlank c && !startsComment c) = true :=
    h.forall_mem (by decide) (by decide)
  apply isField_of_all
  rw [String.toList_ofList, List.all_cons, List.all_eq_true.mpr hcs]
  rfl

theorem number?_of_spells (h : Text.Hex.Spells cs w.toNat) :
    number? (String.ofList ('$' :: cs)) = .ok (some w) := by
  simp only [number?, String.toList_ofList, Text.Hex.afterRadix_of_spells h,
    Text.Hex.word?_of_spells h]

theorem isField_mnemonic (op : Opcode) : IsField op.mnemonic :=
  isField_of_all (by cases op <;> decide)

theorem ofKeyword?_mnemonic (op : Opcode) : Directive.ofKeyword? op.mnemonic = none := by
  cases op <;> decide

theorem operandClass_eq_system_iff (w : Word) :
    (Instruction.decode w).opcode.operandClass = .system ↔ 14 ≤ w.toNat / 4096 := by
  have hclass : ∀ op : Opcode, op.operandClass = .system ↔ 14 ≤ op.code := by
    intro op
    cases op <;> decide
  have hlt := w.toNat_lt
  rw [hclass, Instruction.decode, Opcode.code_ofCode, Nat.mod_eq_of_lt (by omega)]

def operandField (w : Word) : String :=
  String.ofList ('$' :: Text.Hex.digits 3 (Instruction.decode w).operand.toNat)

theorem spells_operand (w : Word) : Text.Hex.Spells
    (Text.Hex.digits 3 (Instruction.decode w).operand.toNat)
    (Instruction.decode w).operand.toNat := by
  have hle : (Instruction.decode w).operand.toNat ≤ 4095 := Instruction.operand_decode_le w
  exact Text.Hex.spells_digits (by decide) (by omega)

theorem isField_operandField (w : Word) : IsField (operandField w) :=
  isField_number (spells_operand w)

theorem number?_operandField (w : Word) :
    number? (operandField w) = .ok (some (Instruction.decode w).operand) :=
  number?_of_spells (spells_operand w)

theorem disassemble_eq (h : w.toNat / 4096 < 14) :
    disassemble w = (Instruction.decode w).opcode.mnemonic ++ " " ++ operandField w := by
  have hclass : (Instruction.decode w).opcode.operandClass ≠ .system := by
    rw [Ne, operandClass_eq_system_iff]
    omega
  have hrow : DisassemblyRow.ofWord 0 w =
      ⟨0, w, (Instruction.decode w).opcode.mnemonic, operandField w⟩ := by
    simp [DisassemblyRow.ofWord, operandField, Text.Hex.padded, String.ofList_cons]
  have hfield : (operandField w).isEmpty = false := by simp [operandField]
  rw [disassemble, hrow, DisassemblyRow.text]
  simp only [hfield, Bool.false_eq_true, if_false]

theorem Renders.unbroken (h : Renders line w) : Text.Unbroken line := by
  cases h with
  | number h => exact unbroken_of_isField (isField_number h)
  | disassembled h =>
    rw [disassemble_eq h]
    exact unbroken_pair (isField_mnemonic _) (isField_operandField w)

theorem Renders.advance (h : Renders line w) : ∃ s, ∀ (d : Draft) (here : Location)
    (rest : List String), d.isFull = false →
      d.advance here line rest = .ok (.next (d.emit s w) 0) := by
  cases h with
  | @number cs _ h =>
    have hline : Statement.ofFields (tokenize (String.ofList ('$' :: cs))) =
        .ok (.single (String.ofList ('$' :: cs))) := by
      rw [tokenize_of_isField (isField_number h)]
      rfl
    refine ⟨.single (String.ofList ('$' :: cs)), fun d here rest hspace => ?_⟩
    have heffect : d.effectOf (.single (String.ofList ('$' :: cs))) = .ok (.emit w) := by
      simp only [Draft.effectOf, Draft.singleEffect, number?_of_spells h]
    exact Draft.advance_of_advances (.effect hline hspace (by simp) heffect (by simp))
  | disassembled h =>
    have hline : Statement.ofFields (tokenize (disassemble w)) =
        .ok (.instruction (Instruction.decode w).opcode (operandField w)) := by
      rw [disassemble_eq h, tokenize_pair (isField_mnemonic _) (isField_operandField w)]
      simp only [Statement.ofFields, Statement.ofPair, ofKeyword?_mnemonic,
        Opcode.ofMnemonic?_mnemonic]
    have hencode : Instruction.encode ⟨(Instruction.decode w).opcode,
        (Instruction.decode w).operand⟩ = w := Instruction.encode_decode w
    refine ⟨.instruction (Instruction.decode w).opcode (operandField w),
      fun d here rest hspace => ?_⟩
    have heffect : d.effectOf (.instruction (Instruction.decode w).opcode (operandField w)) =
        .ok (.emit w) := by
      simp only [Draft.effectOf, Draft.instructionEffect, number?_operandField,
        Draft.operandOf_of_le (Instruction.operand_decode_le w), Except.map, hencode]
    exact Draft.advance_of_advances (.effect hline hspace (by simp) heffect (by simp))

def systemMnemonics : List String :=
  ["set.port", "get.port", "set.flags", "get.flags", "set.pc", "get.pc"]

theorem isField_index (port : Port) : IsField (toString port.index) := by
  have hindex : ∀ n : Fin 8, IsField (toString n.val) := fun n =>
    isField_of_all (by revert n; decide)
  have hlt : port.index < 8 := by
    cases port <;> simp only [Port.index] <;> omega
  exact hindex ⟨port.index, hlt⟩

theorem row_of_system (h : 14 ≤ x.toNat / 4096) :
    (DisassemblyRow.ofWord 0 x).mnemonic ∈ systemMnemonics ∧
      ((DisassemblyRow.ofWord 0 x).operand = "" ∨ IsField (DisassemblyRow.ofWord 0 x).operand) := by
  have hclass := (operandClass_eq_system_iff x).mpr h
  have hmnemonic : ∀ op : Opcode, op.operandClass = .system →
      ∀ target ∈ [".port", ".flags", ".pc"], op.mnemonic ++ target ∈ systemMnemonics := by
    intro op
    cases op <;> decide
  simp only [DisassemblyRow.ofWord, hclass]
  cases (Instruction.decode x).systemTarget with
  | port port => exact ⟨hmnemonic _ hclass _ (by simp), .inr (isField_index port)⟩
  | flags => exact ⟨hmnemonic _ hclass _ (by simp), .inl rfl⟩
  | programCounter => exact ⟨hmnemonic _ hclass _ (by simp), .inl rfl⟩

theorem free_of_system {m : String} (h : m ∈ systemMnemonics) : IsField m ∧ ¬IsReserved m := by
  have hfree : ∀ m ∈ systemMnemonics, ¬IsReserved m := by decide
  refine ⟨isField_of_all ?_, hfree m h⟩
  revert m
  decide

theorem Draft.effectOf_single {m : String} (hm : ¬IsReserved m) (hsymbols : d.symbols = {})
    (hmacros : d.macros = {}) : d.effectOf (.single m) = .error (.unknownCommand m) := by
  have hsymbol : d.symbols.get? m = none := by simp [hsymbols, SymbolTable.get?]
  have hmacro : d.macros.get? m = none := by simp [hmacros, MacroTable.get?]
  have hmisuse : misuse m = .unknownCommand m := by
    simp [misuse, ofKeyword?_of_unreserved hm, ofMnemonic?_of_unreserved hm]
  simp only [effectOf, singleEffect, number?_of_unreserved hm, pseudoWord?_of_unreserved hm,
    hsymbol, hmacro, hmisuse]

theorem Statement.ofPair_of_unreserved {m : String} (hm : ¬IsReserved m) (second : String) :
    Statement.ofPair m second = .error (.unknownCommand m) := by
  simp only [Statement.ofPair, ofKeyword?_of_unreserved hm, ofMnemonic?_of_unreserved hm]

theorem advance_of_system (h : 14 ≤ x.toNat / 4096) (hspace : d.isFull = false)
    (hsymbols : d.symbols = {}) (hmacros : d.macros = {}) :
    d.advance here (disassemble x) rest =
      .error (d.failure here (.unknownCommand (DisassemblyRow.ofWord 0 x).mnemonic)) := by
  obtain ⟨hmnemonic, hoperand⟩ := row_of_system h
  obtain ⟨hfield, hfree⟩ := free_of_system hmnemonic
  rw [disassemble, DisassemblyRow.text]
  rcases hoperand with hempty | hport
  · have hline : Statement.ofFields (tokenize (DisassemblyRow.ofWord 0 x).mnemonic) =
        .ok (.single (DisassemblyRow.ofWord 0 x).mnemonic) := by
      rw [tokenize_of_isField hfield]
      rfl
    simp [hempty, Draft.advance, hspace, hline, Draft.obey,
      Draft.effectOf_single hfree hsymbols hmacros]
  · have hline : Statement.ofFields (tokenize ((DisassemblyRow.ofWord 0 x).mnemonic ++ " " ++
        (DisassemblyRow.ofWord 0 x).operand)) =
          .error (.unknownCommand (DisassemblyRow.ofWord 0 x).mnemonic) := by
      rw [tokenize_pair hfield hport]
      exact Statement.ofPair_of_unreserved hfree _
    have hsome : (DisassemblyRow.ofWord 0 x).operand.isEmpty = false := by
      have hne := hport.1
      simpa using hne
    simp [hsome, Draft.advance, hspace, hline]

/-- The words stand in the first cells, and nothing else was done. -/
structure Draft.Holds (d : Draft) (size : MemorySize) (words : List Word) : Prop where
  used : d.used = words.length
  extent : d.extent = words.length
  data : d.data = size.words - 1
  size_cells : d.cells.size = size.words
  cells : d.cells.toList.take words.length = words
  symbols : d.symbols = {}
  macros : d.macros = {}
  references : d.references = #[]

namespace Draft.Holds

variable {size : MemorySize}

theorem empty (size : MemorySize) : (Draft.empty size).Holds size [] where
  used := rfl
  extent := rfl
  data := rfl
  size_cells := Array.size_replicate
  cells := rfl
  symbols := rfl
  macros := rfl
  references := rfl

theorem isFull (h : d.Holds size words) : d.isFull = decide (size.words ≤ words.length + 1) := by
  rw [Draft.isFull, h.data, h.used]
  exact decide_eq_decide.mpr (by omega)

theorem isFull_eq_false (h : d.Holds size words) (hspace : words.length + 1 < size.words) :
    d.isFull = false := by
  rw [h.isFull]
  exact decide_eq_false (by omega)

theorem emit (h : d.Holds size words) (hspace : words.length < size.words) (s : Statement)
    (w : Word) : (d.emit s w).Holds size (words ++ [w]) := by
  obtain ⟨hused, hextent, hdata, hcount, hcells, hsymbols, hmacros, hreferences⟩ := h
  constructor
  case used => simp [Draft.emit, hused]
  case extent => simp [Draft.emit, hused, hextent]
  case data => exact hdata
  case size_cells => simp [Draft.emit, hcount]
  case cells =>
    have hlt : words.length < (d.cells.toList.set words.length w).length := by
      simpa [hcount] using hspace
    rw [Draft.emit, hused, Array.toList_setIfInBounds, List.length_append, List.length_singleton,
      List.take_succ_eq_append_getElem hlt, List.take_set_of_le (Nat.le_refl _), hcells,
      List.getElem_set_self]
  case symbols => exact hsymbols
  case macros => exact hmacros
  case references => exact hreferences

theorem assembleLines_append (limit levels number : Nat)
    (hlines : List.Forall₂ Renders lines words) {before : List Word} (h : d.Holds size before)
    (hspace : before.length + words.length < size.words) : ∃ d',
      d'.Holds size (before ++ words) ∧
      ∀ rest, assembleLines limit levels none number (lines ++ rest) d =
        assembleLines limit levels none (number + words.length) rest d' := by
  induction hlines generalizing before d number with
  | nil => exact ⟨d, by simpa using h, fun rest => rfl⟩
  | @cons line w lines words hline _ ih =>
    rw [List.length_cons] at hspace
    have hroom : d.isFull = false := h.isFull_eq_false (by omega)
    have hlater : (before ++ [w]).length + words.length < size.words := by
      rw [List.length_append, List.length_singleton]
      omega
    obtain ⟨s, hadvance⟩ := hline.advance
    obtain ⟨d', hd', hrun⟩ := ih (number + 1) (h.emit (by omega) s w) hlater
    refine ⟨d', by simpa using hd', fun rest => ?_⟩
    rw [List.cons_append, assembleLines_of_next (hadvance d _ _ hroom), List.drop_zero,
      Nat.add_zero, hrun, List.length_cons, Nat.add_assoc, Nat.add_comm 1]

theorem finish (h : d.Holds size words) : d.finish.result =
    if size.words ≤ words.length + 1 then .error ⟨.spaceExhausted, none⟩ else .ok d.program := by
  simp only [Draft.finish, h.references, resolveAll, h.isFull, decide_eq_true_eq]
  split <;> rfl

theorem savedWords (h : d.Holds size words) (hspace : words.length ≤ size.words) :
    d.program.image.savedWords = words.toArray := by
  have hlength : min d.extent d.cells.size = words.length := by
    rw [h.extent, h.size_cells]
    omega
  simp only [program, Image.savedWords, Image.withUsed, hlength]
  apply Array.toList_inj.mp
  simpa using h.cells

end Draft.Holds

theorem exists_holds (config : Config) (hlines : List.Forall₂ Renders lines words)
    (hspace : words.length < config.size.words) : ∃ d, d.Holds config.size words ∧
      pass config lines = .ok d ∧
      ∀ rest, pass config (lines ++ rest) =
        assembleLines config.maxMacroDepth config.maxMacroDepth none (words.length + 1) rest d := by
  have hroom : ([] : List Word).length + words.length < config.size.words := by
    rw [List.length_nil, Nat.zero_add]
    exact hspace
  obtain ⟨d, hd, hrun⟩ := (Draft.Holds.empty config.size).assembleLines_append
    config.maxMacroDepth config.maxMacroDepth 1 hlines hroom
  have hpass : ∀ rest, pass config (lines ++ rest) =
      assembleLines config.maxMacroDepth config.maxMacroDepth none (words.length + 1) rest d := by
    intro rest
    rw [pass, hrun, Nat.add_comm]
  refine ⟨d, hd, ?_, hpass⟩
  rw [← List.append_nil lines, hpass, assembleLines]

theorem result_of_rendered (config : Config) (hlines : List.Forall₂ Renders lines words)
    (hspace : words.length + 1 < config.size.words) :
    ∃ p, (assembleSource config lines).result = .ok p ∧ p.image.savedWords = words.toArray ∧
      p.codeWords = words.length ∧ p.symbols = .empty := by
  obtain ⟨d, hd, hpass, -⟩ := exists_holds config hlines (Nat.lt_of_succ_lt hspace)
  refine ⟨d.program, ?_, hd.savedWords (by omega), hd.used, hd.symbols⟩
  rw [assembleSource_eq, hpass]
  exact hd.finish.trans (if_neg (by omega))

theorem result_of_filled (hlines : List.Forall₂ Renders lines words)
    (hfull : config.size.words = words.length + 1) :
    (assembleSource config lines).result = .error ⟨.spaceExhausted, none⟩ := by
  obtain ⟨d, hd, hpass, -⟩ := exists_holds config hlines (by omega)
  rw [assembleSource_eq, hpass]
  exact hd.finish.trans (if_pos (by omega))

theorem result_of_next (hlines : List.Forall₂ Renders lines words)
    (hfull : config.size.words = words.length + 1) (line : String) (rest : List String) :
    (assembleSource config (lines ++ line :: rest)).result =
      .error ⟨.spaceExhausted, some ⟨config.size.words, none⟩⟩ := by
  obtain ⟨d, hd, -, hrun⟩ := exists_holds config hlines (by omega)
  have hroom : d.isFull = true := by
    rw [hd.isFull]
    exact decide_eq_true (by omega)
  rw [assembleSource_eq, hrun, assembleLines]
  simp only [Draft.advance, hroom, if_true, Draft.failure, hfull]

theorem result_of_overfull (config : Config) (rest : List String)
    (hlines : List.Forall₂ Renders lines words)
    (hfull : config.size.words ≤ words.length + 1)
    (hmore : config.size.words ≤ (lines ++ rest).length) :
    (assembleSource config (lines ++ rest)).result =
      .error ⟨.spaceExhausted, some ⟨config.size.words, none⟩⟩ := by
  have hpos := config.size.words_pos
  have hlength := hlines.length_eq
  have htaken := List.forall₂_take (config.size.words - 1) hlines
  have hwords : config.size.words = (words.take (config.size.words - 1)).length + 1 := by
    rw [List.length_take]
    omega
  have hsplit : lines ++ rest = lines.take (config.size.words - 1) ++
      (lines.drop (config.size.words - 1) ++ rest) := by
    rw [← List.append_assoc, List.take_append_drop]
  cases hrest : lines.drop (config.size.words - 1) ++ rest with
  | nil =>
    have hnone := congrArg List.length hrest
    rw [List.length_append, List.length_drop, List.length_nil] at hnone
    rw [List.length_append] at hmore
    omega
  | cons line after =>
    rw [hsplit, hrest]
    exact result_of_next htaken hwords line after

theorem result_of_system (hlines : List.Forall₂ Renders lines words)
    (hspace : words.length + 1 < config.size.words) (hx : 14 ≤ x.toNat / 4096)
    (after : List String) : (assembleSource config (lines ++ disassemble x :: after)).result =
      .error ⟨.unknownCommand (DisassemblyRow.ofWord 0 x).mnemonic,
        some ⟨words.length + 1, none⟩⟩ := by
  obtain ⟨d, hd, -, hrun⟩ := exists_holds config hlines (Nat.lt_of_succ_lt hspace)
  have hroom : d.isFull = false := hd.isFull_eq_false hspace
  rw [assembleSource_eq, hrun, assembleLines]
  simp only [advance_of_system hx hroom hd.symbols hd.macros, Draft.failure]

theorem unbroken_of_rendered (hlines : List.Forall₂ Renders lines words) :
    ∀ l ∈ lines, Text.Unbroken l := by
  induction hlines with
  | nil => simp
  | cons hline _ ih => exact List.forall_mem_cons.mpr ⟨hline.unbroken, ih⟩

/-- A source of numbers and disassembled words assembles to the words, or there is no space. Where a
`set` or a `get` is disassembled among them, the source does not assemble. -/
theorem rendered_reassembles (config : Config) (lines : List String) (words : List Word)
    (hlines : List.Forall₂ Renders lines words) :
    Text.lines (Text.unlines lines) = lines ∧
    (∀ source, Text.lines source = lines →
      (words.length < config.size.words - 1 → ∃ p, (assemble config source).result = .ok p ∧
        p.image.savedWords = words.toArray ∧ p.codeWords = words.length ∧ p.symbols = .empty) ∧
      (config.size.words - 1 ≤ words.length → (assemble config source).result =
        .error ⟨.spaceExhausted, if words.length = config.size.words - 1 then none
          else some ⟨config.size.words, none⟩⟩)) ∧
    ∀ (x : Word) (after : List String) (source : String), 14 ≤ x.toNat / 4096 →
      Text.lines source = lines ++ disassemble x :: after →
        (assemble config source).result = .error
          (if words.length < config.size.words - 1 then
            ⟨.unknownCommand (DisassemblyRow.ofWord 0 x).mnemonic, some ⟨words.length + 1, none⟩⟩
          else ⟨.spaceExhausted, some ⟨config.size.words, none⟩⟩) := by
  have hpos := config.size.words_pos
  have hlength := hlines.length_eq
  refine ⟨Text.lines_unlines (unbroken_of_rendered hlines), ?_, ?_⟩
  · rintro source rfl
    refine ⟨fun hspace => result_of_rendered config hlines (by omega), fun hfull => ?_⟩
    split
    · exact result_of_filled hlines (by omega)
    · have hmore := result_of_overfull config [] hlines (by omega)
        (by rw [List.append_nil]; omega)
      rwa [List.append_nil] at hmore
  · intro x after source hx hsource
    rw [assemble, hsource]
    split
    · exact result_of_system hlines (by omega) hx after
    · refine result_of_overfull config _ hlines (by omega) ?_
      rw [List.length_append, List.length_cons]
      omega

theorem rendered_reassembles_two :
    (∃ p, (assemble .least "add $005\n$FFFF\n").result = .ok p ∧
      p.image.savedWords = #[0x3005, 0xffff] ∧ p.codeWords = 2 ∧ p.symbols = .empty) ∧
    (assemble .least "add $005\n$FFFF\nset.port 1").result =
      .error ⟨.unknownCommand "set.port", some ⟨3, none⟩⟩ := by
  have hdigits : List.Forall₂ Text.Hex.IsDigit ['F', 'F', 'F', 'F'] [15, 15, 15, 15] := by
    have hdigit : Text.Hex.IsDigit 'F' 15 := .inr rfl
    exact .cons hdigit (.cons hdigit (.cons hdigit (.cons hdigit .nil)))
  have hnumber : Renders "$FFFF" 0xffff := .number ⟨by decide, _, hdigits, rfl⟩
  have htext : disassemble 0x3005 = "add $005" := by decide
  have hinstruction : Renders "add $005" 0x3005 := htext ▸ .disassembled (by decide)
  obtain ⟨-, hprogram, hrefused⟩ := rendered_reassembles .least ["add $005", "$FFFF"]
    [0x3005, 0xffff] (.cons hinstruction (.cons hnumber .nil))
  exact ⟨(hprogram _ (by decide)).1 (by decide),
    hrefused 0xe801 [] "add $005\n$FFFF\nset.port 1" (by decide) (by decide)⟩

end WordMachine.Assembly
