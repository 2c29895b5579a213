import Mathlib.Data.Option.Basic
import WordMachine.Proofs.Assembly.Lockstep
import WordMachine.Proofs.Assembly.Resolution

/-!
# Assembly under other names

Two drafts correspond if the tables of one have the names of the other renamed, and all else is
equal. Lines that are the same but for their names lead from corresponding drafts to corresponding
ones, or to the same error.
-/

namespace WordMachine.Assembly

def Symbol.mapName (f : String → String) (s : Symbol) : Symbol := { s with name := f s.name }

def Reference.mapNames (f : String → String) (q : Reference) : Reference :=
  ⟨f q.name, q.address, q.location.mapNames f⟩

namespace Renaming

structure Symbols (r : Renaming) (t t' : SymbolTable) : Prop where
  entries : t'.toList = t.toList.map (Symbol.mapName r.word)
  index : ∀ name, t'.index[r.word name]? = t.index[name]?

/-- The journals, whose entries have names in their texts, are not compared. -/
structure Drafts (r : Renaming) (d d' : Draft) : Prop where
  size : d'.size = d.size
  cells : d'.cells = d.cells
  used : d'.used = d.used
  data : d'.data = d.data
  extent : d'.extent = d.extent
  symbols : r.Symbols d.symbols d'.symbols
  macros : ∀ name, Option.Rel (List.Forall₂ r.Renames) (d.macros.get? name)
    (d'.macros.get? (r.word name))
  references : d'.references.toList = d.references.toList.map (Reference.mapNames r.word)

inductive Effects (r : Renaming) : Effect → Effect → Prop
  | nothing : r.Effects .nothing .nothing
  | emit (w : Word) : r.Effects (.emit w) (.emit w)
  | emitForward (name : String) (w : Word) :
      r.Effects (.emitForward name w) (.emitForward (r.word name) w)
  | store (address : Nat) (w : Word) : r.Effects (.store address w) (.store address w)
  | define (s : Symbol) : r.Effects (.define s) (.define (s.mapName r.word))
  | defineCell (s : Symbol) : r.Effects (.defineCell s) (.defineCell (s.mapName r.word))
  | reserve (count : Nat) : r.Effects (.reserve count) (.reserve count)
  | expand (name : String) {body body' : List String} (h : List.Forall₂ r.Renames body body') :
      r.Effects (.expand name body) (.expand (r.word name) body')

variable {r : Renaming} {t t' : SymbolTable} {d d' : Draft} {e e' : Effect} {s : Statement}
  {here : Location} {line line' : String} {lines lines' rest rest' : List String}

namespace Symbols

theorem empty (r : Renaming) : r.Symbols {} {} where
  entries := rfl
  index := by simp

theorem get? (h : r.Symbols t t') (name : String) :
    t'.get? (r.word name) = (t.get? name).map (Symbol.mapName r.word) := by
  have hentries : t'.entries = t.entries.map (Symbol.mapName r.word) := by
    apply Array.toList_inj.mp
    rw [Array.toList_map]
    exact h.entries
  rw [SymbolTable.get?, SymbolTable.get?, h.index, hentries]
  cases t.index[name]? <;> simp

theorem contains (h : r.Symbols t t') (name : String) :
    t'.contains (r.word name) = t.contains name := by
  rw [SymbolTable.contains, SymbolTable.contains, Std.HashMap.contains_eq_isSome_getElem?,
    Std.HashMap.contains_eq_isSome_getElem?, h.index]

theorem insert (h : r.Symbols t t') (s : Symbol) :
    r.Symbols (t.insert s) (t'.insert (s.mapName r.word)) where
  entries := by simp [h.entries]
  index := by
    intro name
    -- a new symbol gets the same place in both tables
    have hsize : t'.entries.size = t.entries.size := by
      simpa [SymbolTable.toList] using congrArg List.length h.entries
    simp only [SymbolTable.insert, Std.HashMap.getElem?_insert, beq_iff_eq, Symbol.mapName,
      r.word_injective.eq_iff, h.index, hsize]

end Symbols

theorem causes_of_number? {token : String} {c : Cause} (r : Renaming)
    (h : number? token = .error c) : r.Causes c c := by
  have hreserved : IsReserved token := by
    by_contra hfree
    rw [number?_of_unreserved hfree] at h
    contradiction
  unfold number? at h
  split at h
  · split at h
    · contradiction
    · obtain rfl := Except.error.inj h
      rw [Causes, Cause.mapNames, r.word_of_reserved hreserved]
  · contradiction

theorem misuse_word (r : Renaming) (field : String) :
    r.Causes (misuse field) (misuse (r.word field)) := by
  unfold misuse
  rw [r.ofKeyword?_word, r.ofMnemonic?_word]
  cases Directive.ofKeyword? field with
  | some directive => cases directive <;> rfl
  | none => cases Opcode.ofMnemonic? field <;> rfl

theorem operandOf_self (r : Renaming) (w : Word) :
    Corresponds r.Causes Eq (operandOf w) (operandOf w) := by
  unfold operandOf
  split
  · exact .error rfl
  · exact .ok rfl

theorem of_number? {α : Type} {R : α → α → Prop} {f g : Word → Except Cause α}
    {x y : Except Cause α} (r : Renaming) (token : String)
    (hfg : ∀ w, Corresponds r.Causes R (f w) (g w)) (hxy : Corresponds r.Causes R x y) :
    Corresponds r.Causes R
      (match number? token with
        | .error cause => .error cause
        | .ok (some w) => f w
        | .ok none => x)
      (match number? (r.word token) with
        | .error cause => .error cause
        | .ok (some w) => g w
        | .ok none => y) := by
  rw [r.number?_word]
  cases hnumber : number? token with
  | error cause => exact .error (r.causes_of_number? hnumber)
  | ok w =>
    cases w with
    | some w => exact hfg w
    | none => exact hxy

namespace Drafts

theorem valueOf (h : r.Drafts d d') (token : String) :
    Corresponds r.Causes Eq (d.valueOf token) (d'.valueOf (r.word token)) := by
  refine r.of_number? token (fun w => .ok rfl) ?_
  rw [h.symbols.get?]
  cases d.symbols.get? token with
  | none => exact .error rfl
  | some s => exact .ok rfl

theorem countOf (h : r.Drafts d d') (token : String) :
    Corresponds r.Causes Eq (d.countOf token) (d'.countOf (r.word token)) := by
  refine r.of_number? token (fun w => .ok rfl) ?_
  rw [h.symbols.get?]
  cases d.symbols.get? token with
  | none => exact .error rfl
  | some s =>
    obtain ⟨name, kind, value⟩ := s
    cases kind with
    | constant => exact .ok rfl
    | dataCell | label => exact .error rfl

theorem singleEffect (h : r.Drafts d d') (field : String) :
    Corresponds r.Causes r.Effects (d.singleEffect field) (d'.singleEffect (r.word field)) := by
  refine r.of_number? field (fun w => .ok (.emit w)) ?_
  rw [r.pseudoWord?_word, h.symbols.get?]
  cases pseudoWord? field with
  | some w => exact .ok (.emit w)
  | none =>
    cases d.symbols.get? field with
    | some s => exact .ok (.emit s.value)
    | none =>
      have hmacros := h.macros field
      generalize d.macros.get? field = body, d'.macros.get? (r.word field) = body' at hmacros
      cases hmacros with
      | none => exact .error (r.misuse_word field)
      | some hbody => exact .ok (.expand field hbody)

theorem instructionEffect (h : r.Drafts d d') (opcode : Opcode) (token : String) :
    Corresponds r.Causes r.Effects (d.instructionEffect opcode token)
      (d'.instructionEffect opcode (r.word token)) := by
  have hemit : ∀ v w : Word, v = w → r.Effects (.emit (Instruction.encode ⟨opcode, v⟩))
      (.emit (Instruction.encode ⟨opcode, w⟩)) := by
    rintro v _ rfl
    exact .emit _
  refine r.of_number? token (fun w => (r.operandOf_self w).map hemit) ?_
  rw [h.symbols.get?]
  cases d.symbols.get? token with
  | some s => exact (r.operandOf_self s.value).map hemit
  | none => exact .ok (.emitForward token _)

theorem setEffect (h : r.Drafts d d') (target value : String) :
    Corresponds r.Causes r.Effects (d.setEffect target value)
      (d'.setEffect (r.word target) (r.word value)) := by
  unfold Draft.setEffect
  have htarget := h.valueOf target
  generalize d.valueOf target = x, d'.valueOf (r.word target) = x' at htarget
  cases htarget with
  | error hcause => exact .error hcause
  | ok heq =>
    obtain rfl := heq
    simp only [h.size]
    split
    · exact .error rfl
    · refine (h.valueOf value).map ?_
      rintro w _ rfl
      exact .store _ w

theorem allocateEffect (h : r.Drafts d d') (count : String) :
    Corresponds r.Causes r.Effects (d.allocateEffect count) (d'.allocateEffect (r.word count)) := by
  unfold Draft.allocateEffect
  have hcount := h.countOf count
  generalize d.countOf count = x, d'.countOf (r.word count) = x' at hcount
  cases hcount with
  | error hcause => exact .error hcause
  | ok heq =>
    obtain rfl := heq
    simp only [h.data]
    split
    · exact .error rfl
    · exact .ok (.reserve _)

theorem unlessDefined (h : r.Drafts d d') (name : String) (he : r.Effects e e') :
    Corresponds r.Causes r.Effects (d.unlessDefined name e)
      (d'.unlessDefined (r.word name) e') := by
  unfold Draft.unlessDefined
  rw [h.symbols.contains]
  split
  · exact .error rfl
  · exact .ok he

theorem effectOf (h : r.Drafts d d') (s : Statement) :
    Corresponds r.Causes r.Effects (d.effectOf s) (d'.effectOf (s.mapNames r.word)) := by
  cases s with
  | blank | beginMacro => exact .ok .nothing
  | single field => exact h.singleEffect field
  | dataCell name =>
    rw [Statement.mapNames, Draft.effectOf, Draft.effectOf, h.data]
    exact h.unlessDefined name (.defineCell _)
  | label name =>
    rw [Statement.mapNames, Draft.effectOf, Draft.effectOf, h.used]
    exact h.unlessDefined name (.define _)
  | allocate count => exact h.allocateEffect count
  | instruction opcode operand => exact h.instructionEffect opcode operand
  | set target value => exact h.setEffect target value
  | constant name value =>
    rw [Statement.mapNames, Draft.effectOf, Draft.effectOf]
    have hvalue := h.valueOf value
    generalize d.valueOf value = x, d'.valueOf (r.word value) = x' at hvalue
    cases hvalue with
    | error hcause => exact .error hcause
    | ok heq =>
      obtain rfl := heq
      exact h.unlessDefined name (.define _)

theorem isFull (h : r.Drafts d d') : d'.isFull = d.isFull := by
  rw [Draft.isFull, Draft.isFull, h.data, h.used]

theorem note (h : r.Drafts d d') (entry entry' : Entry) :
    r.Drafts (d.note entry) (d'.note entry') := by
  obtain ⟨size, cells, used, data, extent, symbols, macros, references⟩ := h
  exact ⟨size, cells, used, data, extent, symbols, macros, references⟩

theorem emit (h : r.Drafts d d') (s s' : Statement) (w : Word) :
    r.Drafts (d.emit s w) (d'.emit s' w) := by
  obtain ⟨size, cells, used, data, extent, symbols, macros, references⟩ := h
  constructor
  case cells => simp [Draft.emit, cells, used]
  case used => simp [Draft.emit, used]
  case extent => simp [Draft.emit, extent, used]
  all_goals assumption

theorem store (h : r.Drafts d d') (address : Nat) (w : Word) :
    r.Drafts (d.store address w) (d'.store address w) := by
  obtain ⟨size, cells, used, data, extent, symbols, macros, references⟩ := h
  constructor
  case cells => simp [Draft.store, cells]
  case extent => simp [Draft.store, extent]
  all_goals assumption

theorem reserve (h : r.Drafts d d') (count : Nat) :
    r.Drafts (d.reserve count) (d'.reserve count) := by
  obtain ⟨size, cells, used, data, extent, symbols, macros, references⟩ := h
  constructor
  case data => simp [Draft.reserve, data]
  all_goals assumption

theorem refer (h : r.Drafts d d') (name : String) (here : Location) :
    r.Drafts (d.refer name here) (d'.refer (r.word name) (here.mapNames r.word)) := by
  obtain ⟨size, cells, used, data, extent, symbols, macros, references⟩ := h
  constructor
  case references => simp [Draft.refer, references, Reference.mapNames, used]
  all_goals assumption

theorem define (h : r.Drafts d d') (s : Symbol) :
    r.Drafts (d.define s) (d'.define (s.mapName r.word)) := by
  obtain ⟨size, cells, used, data, extent, symbols, macros, references⟩ := h
  constructor
  case symbols => exact symbols.insert s
  all_goals assumption

theorem insertMacro (h : r.Drafts d d') (name : String) {body body' : List String}
    (hbody : List.Forall₂ r.Renames body body') :
    r.Drafts (d.withMacros (d.macros.insert name body))
      (d'.withMacros (d'.macros.insert (r.word name) body')) := by
  obtain ⟨size, cells, used, data, extent, symbols, macros, references⟩ := h
  constructor
  case macros =>
    intro other
    simp only [Draft.withMacros, MacroTable.get?_insert, r.word_injective.eq_iff]
    split
    · exact .some hbody
    · exact macros other
  all_goals assumption

theorem apply (h : r.Drafts d d') (here : Location) (s s' : Statement) (he : r.Effects e e') :
    r.Drafts (d.apply here s e) (d'.apply (here.mapNames r.word) s' e') := by
  cases he with
  | nothing | expand => exact h
  | emit w => exact h.emit s s' w
  | emitForward name w => exact (h.refer name here).emit s s' w
  | store address w => exact h.store address w
  | define symbol => exact h.define symbol
  | defineCell symbol => exact (h.define symbol).reserve 1
  | reserve count => exact h.reserve count

end Drafts

def Failures (r : Renaming) (f f' : Failure) : Prop := f'.error = f.error.mapNames r.word

inductive Advances (r : Renaming) : Advance → Advance → Prop
  | next {d d' : Draft} (h : r.Drafts d d') (skipped : Nat) :
      r.Advances (.next d skipped) (.next d' skipped)
  | expand {d d' : Draft} (h : r.Drafts d d') (name : String) {body body' : List String}
      (hbody : List.Forall₂ r.Renames body body') :
      r.Advances (.expand d name body) (.expand d' (r.word name) body')

theorem failure (d d' : Draft) (here : Location) {c c' : Cause} (hc : r.Causes c c') :
    r.Failures (d.failure here c) (d'.failure (here.mapNames r.word) c') := by
  obtain rfl := hc
  rfl

namespace Drafts

theorem contains_macro (h : r.Drafts d d') (name : String) :
    d'.macros.contains (r.word name) = d.macros.contains name := by
  rw [MacroTable.contains_eq_isSome_get?, MacroTable.contains_eq_isSome_get?]
  have hmacros := h.macros name
  generalize d.macros.get? name = body, d'.macros.get? (r.word name) = body' at hmacros ⊢
  cases hmacros <;> rfl

theorem capture (h : r.Drafts d d') (here : Location) (name : String)
    (hrest : List.Forall₂ r.Renames rest rest') :
    Corresponds r.Failures r.Advances (d.capture here name rest)
      (d'.capture (here.mapNames r.word) (r.word name) rest') := by
  unfold Draft.capture
  simp only [Location.mapNames, Option.isSome_map]
  split
  · exact .error (failure d d' here rfl)
  · have hparts := captureBody_renames hrest
    generalize captureBody rest = parts, captureBody rest' = parts' at hparts
    cases hparts with
    | none => exact .error (failure d d' here rfl)
    | @some x y hparts =>
      obtain ⟨body, after⟩ := x
      obtain ⟨body', after'⟩ := y
      have hnote := h.note (.captured name body.length) (.captured (r.word name) body.length)
      have hcontains := hnote.contains_macro name
      simp only [← hparts.1.length_eq]
      cases hname : (d.note (.captured name body.length)).macros.contains name with
      | true =>
        rw [MacroTable.define_of_taken body hname,
          MacroTable.define_of_taken body' (hcontains.trans hname)]
        exact .error (failure _ _ here rfl)
      | false =>
        rw [MacroTable.define_of_free body hname,
          MacroTable.define_of_free body' (hcontains.trans hname)]
        exact .ok (.next (hnote.insertMacro name hparts.1) _)

theorem obey (h : r.Drafts d d') (here : Location) (s : Statement)
    (hrest : List.Forall₂ r.Renames rest rest') :
    Corresponds r.Failures r.Advances (d.obey here s rest)
      (d'.obey (here.mapNames r.word) (s.mapNames r.word) rest') := by
  by_cases hmacro : ∃ name, s = .beginMacro name
  · obtain ⟨name, rfl⟩ := hmacro
    exact h.capture here name hrest
  · have heffect := h.effectOf s
    rw [Draft.obey_of_ne (not_exists.mp hmacro), Draft.obey_of_ne (s := s.mapNames r.word) ?_]
    · generalize d.effectOf s = x, d'.effectOf (s.mapNames r.word) = x' at heffect
      cases heffect with
      | error hcause => exact .error (failure d d' here hcause)
      | ok he =>
        have happly := h.apply here s (s.mapNames r.word) he
        cases he with
        | expand name hbody => exact .ok (.expand h name hbody)
        | _ => exact .ok (.next happly 0)
    · intro name
      cases s with
      | beginMacro name => exact absurd ⟨name, rfl⟩ hmacro
      | _ => simp [Statement.mapNames]

theorem advance (h : r.Drafts d d') (number : Nat) (inMacro : Option String)
    (hline : r.Renames line line') (hrest : List.Forall₂ r.Renames rest rest') :
    Corresponds r.Failures r.Advances (d.advance ⟨number, inMacro⟩ line rest)
      (d'.advance ⟨number, inMacro.map r.word⟩ line' rest') := by
  unfold Draft.advance
  rw [h.isFull, hline]
  split
  · exact .error (failure d d' ⟨number, inMacro⟩ rfl)
  · have hstatement := r.ofFields_word (tokenize line)
    generalize Statement.ofFields (tokenize line) = x,
      Statement.ofFields ((tokenize line).map r.word) = x' at hstatement
    cases hstatement with
    | error hcause => exact .error (failure d d' ⟨number, inMacro⟩ hcause)
    | ok hs =>
      obtain rfl := hs
      exact h.obey ⟨number, inMacro⟩ _ hrest

end Drafts

theorem Advances.corresponds {a a' : Advance} (h : r.Advances a a') :
    Advance.Corresponds r.Drafts r.Renames r.word a a' := by
  cases h with
  | next h skipped => exact .next h skipped
  | expand h name hbody => exact .expand h name hbody

theorem lockstep (r : Renaming) (limit : Nat) :
    Lockstep limit r.Failures r.Drafts r.Renames r.word where
  advance := by
    intro d d' line line' rest rest' number inMacro h hline hrest
    exact (h.advance number inMacro hline hrest).imp fun _ _ => Advances.corresponds
  expanding name depth h := h.note _ _
  tooDeep number inMacro name h := failure _ _ ⟨number, inMacro⟩ rfl

theorem assembleLines_renames {limit levels number : Nat} {inMacro : Option String}
    (h : r.Drafts d d') (hlines : List.Forall₂ r.Renames lines lines') :
    Corresponds r.Failures r.Drafts (assembleLines limit levels inMacro number lines d)
      (assembleLines limit levels (inMacro.map r.word) number lines' d') :=
  (r.lockstep limit).corresponds h hlines

namespace Drafts

theorem empty (r : Renaming) (size : MemorySize) :
    r.Drafts (Draft.empty size) (Draft.empty size) where
  size := rfl
  cells := rfl
  used := rfl
  data := rfl
  extent := rfl
  symbols := Symbols.empty r
  macros := by
    intro name
    simp [Draft.empty, MacroTable.get?]
  references := by simp [Draft.empty]

theorem patch (h : r.Drafts d d') (address : Nat) (name : String) (value : Word) :
    r.Drafts (d.patch address name value) (d'.patch address (r.word name) value) := by
  obtain ⟨size, cells, used, data, extent, symbols, macros, references⟩ := h
  constructor
  case cells => simp [Draft.patch, cells]
  all_goals assumption

theorem resolve (h : r.Drafts d d') (q : Reference) :
    Corresponds r.Failures r.Drafts (d.resolve q) (d'.resolve (q.mapNames r.word)) := by
  unfold Draft.resolve
  simp only [Reference.mapNames, h.symbols.get?]
  cases d.symbols.get? q.name with
  | none => exact .error (failure d d' q.location rfl)
  | some s =>
    obtain ⟨name, kind, value⟩ := s
    cases kind with
    | label =>
      simp only [Option.map_some, Symbol.mapName, operandOf]
      by_cases hwide : operandMask < value
      · simp only [if_pos hwide]
        exact .error (failure d d' q.location rfl)
      · simp only [if_neg hwide]
        exact .ok (h.patch q.address q.name value)
    | dataCell | constant => exact .error (failure d d' q.location rfl)

theorem resolveAll (h : r.Drafts d d') (qs : List Reference) :
    Corresponds r.Failures r.Drafts (Draft.resolveAll qs d)
      (Draft.resolveAll (qs.map (Reference.mapNames r.word)) d') := by
  induction qs generalizing d d' with
  | nil => exact .ok h
  | cons q qs ih =>
    have hresolve := h.resolve q
    rw [List.map_cons, Draft.resolveAll, Draft.resolveAll]
    generalize d.resolve q = x, d'.resolve (q.mapNames r.word) = x' at hresolve
    cases hresolve with
    | error hf => exact .error hf
    | ok h₁ => exact ih h₁

end Drafts

def Errors (r : Renaming) (e e' : Error) : Prop := e' = e.mapNames r.word

structure Programs (r : Renaming) (p p' : Program) : Prop where
  image : p'.image = p.image
  codeWords : p'.codeWords = p.codeWords
  symbols : p'.symbols.toList = p.symbols.toList.map (Symbol.mapName r.word)

theorem Drafts.program (h : r.Drafts d d') : r.Programs d.program d'.program where
  image := by rw [Draft.program, Draft.program, h.cells, h.extent]
  codeWords := h.used
  symbols := h.symbols.entries

theorem Drafts.finish (h : r.Drafts d d') :
    Corresponds r.Errors r.Programs d.finish.result d'.finish.result := by
  unfold Draft.finish
  have hresolve := h.resolveAll d.references.toList
  rw [h.references]
  generalize Draft.resolveAll d.references.toList d = x,
    Draft.resolveAll (d.references.toList.map (Reference.mapNames r.word)) d' = x' at hresolve
  cases hresolve with
  | error hf => exact .error hf
  | ok h₁ =>
    simp only [h₁.isFull]
    split
    · exact .error rfl
    · exact .ok h₁.program

/-- Names do not matter: a source with other names gives the same program under these names, or
fails where the source fails and for the same cause. -/
theorem assembly_renames (r : Renaming) (config : Config) (lines : List String) :
    (∀ l ∈ lines, ∀ s ∈ tokenize l, IsField s) ∧
      List.Forall₂ r.Renames lines (lines.map r.line) ∧
      ∀ lines', List.Forall₂ r.Renames lines lines' →
        Corresponds r.Errors r.Programs (assembleSource config lines).result
          (assembleSource config lines').result := by
  refine ⟨fun l _ s hs => isField_of_mem_tokenize hs, ?_, ?_⟩
  · rw [List.forall₂_map_right_iff]
    exact List.forall₂_same.mpr fun l _ => r.renames_line l
  · intro lines' hlines
    have hpass : Corresponds r.Failures r.Drafts (pass config lines) (pass config lines') :=
      assembleLines_renames (Drafts.empty r config.size) hlines
    rw [assembleSource_eq, assembleSource_eq]
    generalize pass config lines = x, pass config lines' = x' at hpass
    cases hpass with
    | error hf => exact .error hf
    | ok h => exact h.finish

theorem assembly_renames_exchanged : ∃ p p',
    (assembleSource .least ["jump top", "nop", "label top"]).result = .ok p ∧
      (assembleSource .least ["jump end", "nop", "label end"]).result = .ok p' ∧
      p'.image = p.image ∧ p'.symbols.toList = [⟨"end", .label, 2⟩] := by
  have hfield : IsField "top" ∧ IsField "end" := by
    simp [IsField, Text.isBlank, startsComment]
  have hfree : ¬IsReserved "top" ∧ ¬IsReserved "end" := by decide
  let r := exchange ⟨"top", hfield.1⟩ ⟨"end", hfield.2⟩ hfree.1 hfree.2
  have htop : r.word "top" = "end" := exchange_left _ _ _ _
  have hjump : r.word "jump" = "jump" := r.word_of_reserved (by decide)
  have hnop : r.word "nop" = "nop" := r.word_of_reserved (by decide)
  have hlabel : r.word "label" = "label" := r.word_of_reserved (by decide)
  have hlines : List.Forall₂ r.Renames ["jump top", "nop", "label top"]
      ["jump end", "nop", "label end"] := by
    refine .cons ?_ (.cons ?_ (.cons ?_ .nil))
    · have hline : tokenize "jump top" = ["jump", "top"] := by decide
      rw [Renames, hline, List.map_cons, List.map_singleton, hjump, htop]
      decide
    · have hline : tokenize "nop" = ["nop"] := by decide
      rw [Renames, hline, List.map_singleton, hnop]
    · have hline : tokenize "label top" = ["label", "top"] := by decide
      rw [Renames, hline, List.map_cons, List.map_singleton, hlabel, htop]
      decide
  have hsymbols : (assembleSource .least ["jump top", "nop", "label top"]).result.toOption.map
      (·.symbols.toList) = some [⟨"top", .label, 2⟩] := by cbv
  obtain ⟨p, h, hlist⟩ := exists_ok hsymbols
  obtain ⟨p', h', hprograms⟩ := ((assembly_renames r .least _).2.2 _ hlines).of_ok h
  refine ⟨p, p', h, h', hprograms.image, ?_⟩
  rw [hprograms.symbols, hlist, List.map_singleton, Symbol.mapName, htop]

end Renaming

end WordMachine.Assembly
