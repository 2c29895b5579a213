import WordMachine.Proofs.Assembly.Extent

/-!
# The strict assembler

Space is compared once, before each line. The strict assembler also checks, wherever a cell is
written, a cursor is lowered, an address becomes the value of a symbol or a place of the symbol
table is read, that it is in its range, and gives up where it is not. It never gives up: it
assembles every source as the assembler does, also one that ends in an error.
-/

namespace WordMachine.Assembly

def SymbolTable.inRange (t : SymbolTable) (name : String) : Bool :=
  match t.index[name]? with
  | some place => place < t.entries.size
  | none => true

namespace Draft

def strictEmit (d : Draft) (s : Statement) (w : Word) : Option Draft :=
  if h : d.used < d.cells.size then
    some { d with
      cells := d.cells.set d.used w h
      used := d.used + 1
      extent := max d.extent (d.used + 1)
      journal := d.journal.push (.emitted d.used w s) }
  else none

def strictStore (d : Draft) (address : Nat) (w : Word) : Option Draft :=
  if h : address < d.cells.size then
    some { d with
      cells := d.cells.set address w h
      extent := max d.extent (address + 1)
      journal := d.journal.push (.stored address w) }
  else none

def strictReserve (d : Draft) (count : Nat) : Option Draft :=
  if count ≤ d.data then some (d.reserve count) else none

/-- An address that is the value of a symbol has sixteen bits. -/
def strictDefine (d : Draft) (symbol : Symbol) : Option Draft :=
  match symbol.kind with
  | .label => if d.used < 65536 then some (d.define symbol) else none
  | .dataCell => if d.data < 65536 then some (d.define symbol) else none
  | .constant => some (d.define symbol)

def strictApply (d : Draft) (here : Location) (s : Statement) : Effect → Option Draft
  | .nothing | .expand _ _ => some d
  | .emit w => d.strictEmit s w
  | .emitForward name w => (d.refer name here).strictEmit s w
  | .store address w => d.strictStore address w
  | .define symbol => d.strictDefine symbol
  | .defineCell symbol => (d.strictDefine symbol).bind (·.strictReserve 1)
  | .reserve count => d.strictReserve count

def strictObey (d : Draft) (here : Location) (s : Statement) (rest : List String) :
    Option (Except Failure Advance) :=
  match s with
  | .beginMacro name => some (d.capture here name rest)
  | s =>
    match d.effectOf s with
    | .error cause => some (.error (d.failure here cause))
    | .ok (.expand name body) => some (.ok (.expand d name body))
    | .ok effect => (d.strictApply here s effect).map fun d => .ok (.next d 0)

def strictAdvance (d : Draft) (here : Location) (line : String) (rest : List String) :
    Option (Except Failure Advance) :=
  if d.isFull then some (.error (d.failure here .spaceExhausted))
  else if (tokenize line).all d.symbols.inRange then
    match Statement.ofFields (tokenize line) with
    | .error cause => some (.error (d.failure here cause))
    | .ok statement => d.strictObey here statement rest
  else none

def strictPatch (d : Draft) (address : Nat) (name : String) (value : Word) : Option Draft :=
  if h : address < d.cells.size then
    some { d with
      cells := d.cells.set address ((d.cells[address] &&& ~~~operandMask) ||| value) h
      journal := d.journal.push (.patched address name value) }
  else none

def strictResolve (d : Draft) (r : Reference) : Option (Except Failure Draft) :=
  if d.symbols.inRange r.name then
    match d.symbols.get? r.name with
    | some ⟨_, .label, value⟩ =>
      match operandOf value with
      | .error cause => some (.error (d.failure r.location cause))
      | .ok operand => (d.strictPatch r.address r.name operand).map .ok
    | _ => some (.error (d.failure r.location (.unresolvedReference r.name)))
  else none

def strictResolveAll : List Reference → Draft → Option (Except Failure Draft)
  | [], d => some (.ok d)
  | r :: rs, d =>
    match d.strictResolve r with
    | none => none
    | some (.error f) => some (.error f)
    | some (.ok d) => strictResolveAll rs d

def strictProgram (d : Draft) : Option Program :=
  if d.used ≤ d.cells.size ∧ d.extent ≤ d.cells.size then some d.program else none

def strictFinish (d : Draft) : Option Outcome :=
  match strictResolveAll d.references.toList d with
  | none => none
  | some (.error f) => some ⟨.error f.error, f.journal⟩
  | some (.ok d) =>
    if d.isFull then some ⟨.error ⟨.spaceExhausted, none⟩, d.journal⟩
    else d.strictProgram.map fun p => ⟨.ok p, d.journal⟩

end Draft

def strictAssembleLines (limit levels : Nat) (inMacro : Option String) (number : Nat)
    (lines : List String) (d : Draft) : Option (Except Failure Draft) :=
  match lines with
  | [] => some (.ok d)
  | line :: rest =>
    let here : Location := ⟨number, inMacro⟩
    match d.strictAdvance here line rest with
    | none => none
    | some (.error f) => some (.error f)
    | some (.ok (.next d skipped)) =>
      strictAssembleLines limit levels inMacro (number + 1 + skipped) (rest.drop skipped) d
    | some (.ok (.expand d name body)) =>
      match levels with
      | 0 => some (.error (d.failure here (.macroDepthExceeded name limit)))
      | levels + 1 =>
        let d := d.note (.expanding name (limit - levels))
        match strictAssembleLines limit levels (some name) 1 body d with
        | none => none
        | some (.error f) => some (.error f)
        | some (.ok d) => strictAssembleLines limit (levels + 1) inMacro (number + 1) rest d
termination_by (levels, lines.length)
decreasing_by
  · simp only [List.length_drop, List.length_cons]
    exact Prod.Lex.right _ (by omega)
  · exact Prod.Lex.left _ _ (by omega)
  · exact Prod.Lex.right _ (by simp)

def strictAssembleSource (config : Config) (lines : List String) : Option Outcome :=
  match strictAssembleLines config.maxMacroDepth config.maxMacroDepth none 1 lines
      (Draft.empty config.size) with
  | none => none
  | some (.error f) => some ⟨.error f.error, f.journal⟩
  | some (.ok d) => d.strictFinish

variable {limit levels number : Nat} {inMacro : Option String} {line name : String}
  {lines rest : List String} {here : Location} {d : Draft} {s : Statement} {e : Effect} {w : Word}
  {symbol : Symbol} {address count : Nat} {rs : List Reference} {config : Config}

theorem SymbolTable.Coherent.inRange {t : SymbolTable} (h : t.Coherent) (name : String) :
    t.inRange name = true := by
  unfold SymbolTable.inRange
  split
  · rename_i place hplace
    exact decide_eq_true (h.lt_of_index hplace)
  · rfl

namespace Draft

theorem strictEmit_eq (h : d.used < d.cells.size) : d.strictEmit s w = some (d.emit s w) := by
  simp [strictEmit, emit, Array.setIfInBounds, h]

theorem strictStore_eq (h : address < d.cells.size) :
    d.strictStore address w = some (d.store address w) := by
  simp [strictStore, store, Array.setIfInBounds, h]

theorem strictReserve_eq (h : count ≤ d.data) :
    d.strictReserve count = some (d.reserve count) := by
  rw [strictReserve, if_pos h]

theorem strictDefine_eq (hused : d.used < 65536) (hdata : d.data < 65536) :
    d.strictDefine symbol = some (d.define symbol) := by
  unfold strictDefine
  split
  · exact if_pos hused
  · exact if_pos hdata
  · rfl

theorem strictPatch_eq {value : Word} (h : address < d.cells.size) :
    d.strictPatch address name value = some (d.patch address name value) := by
  simp [strictPatch, patch, Array.modify, Array.modifyM, h]

theorem strictApply_eq (here : Location) (hsound : d.Sound) (hspace : d.used < d.data)
    (hdoes : d.Does s e) :
    d.strictApply here s e = some (d.apply here s e) := by
  have hcells := hsound.length_cells
  have hwords := d.size.words_le
  have hdata : d.data < 65536 := lt_of_lt_of_le hsound.data_lt hwords
  have hused : d.used < 65536 := hspace.trans hdata
  have hemit : d.used < d.cells.size := by
    rw [hcells]
    exact hspace.trans hsound.data_lt
  cases hdoes with
  | blank | beginMacro | call => rfl
  | word | number | known => exact strictEmit_eq hemit
  | forward => exact strictEmit_eq (d := d.refer _ here) hemit
  | set htarget hinside hvalue => exact strictStore_eq (hinside.trans_eq hcells.symm)
  | label hfree | constant hvalue hfree =>
    rw [strictApply]
    exact strictDefine_eq hused hdata
  | allocate hcount hroom => exact strictReserve_eq hroom
  | dataCell hfree =>
    have hpos : 1 ≤ d.data := Nat.one_le_of_lt hspace
    rw [strictApply, strictDefine_eq hused hdata]
    exact strictReserve_eq hpos

theorem strictObey_eq (hsound : d.Sound) (hspace : d.used < d.data) :
    d.strictObey here s rest = some (d.obey here s rest) := by
  cases heffect : d.effectOf s with
  | error cause => cases s <;> simp [strictObey, obey, heffect]
  | ok e =>
    have hdoes := does_of_effectOf heffect
    have happly := strictApply_eq here hsound hspace hdoes
    cases hdoes <;> simp [strictObey, obey, heffect, happly]

theorem strictAdvance_eq (hsound : d.Sound) :
    d.strictAdvance here line rest = some (d.advance here line rest) := by
  unfold strictAdvance advance
  by_cases hfull : d.isFull
  · simp [hfull]
  · have hlook : (tokenize line).all d.symbols.inRange = true :=
      List.all_eq_true.mpr fun name _ => hsound.coherent.inRange name
    have hspace : d.used < d.data := by simpa [isFull] using hfull
    simp only [hfull, hlook, Bool.false_eq_true, if_false, if_true]
    cases Statement.ofFields (tokenize line) with
    | error cause => rfl
    | ok s => exact strictObey_eq hsound hspace

theorem strictResolve_eq {r : Reference} (hcoherent : d.symbols.Coherent)
    (hr : r.address < d.cells.size) : d.strictResolve r = some (d.resolve r) := by
  unfold strictResolve resolve
  rw [if_pos (hcoherent.inRange r.name)]
  cases d.symbols.get? r.name with
  | none => rfl
  | some s =>
    obtain ⟨name, kind, value⟩ := s
    cases kind with
    | dataCell | constant => rfl
    | label =>
      cases hoperand : operandOf value with
      | error cause => simp only [hoperand]
      | ok operand => simp only [hoperand, strictPatch_eq hr, Option.map_some]

theorem strictResolveAll_eq (hcoherent : d.symbols.Coherent)
    (hrs : ∀ r ∈ rs, r.address < d.cells.size) :
    strictResolveAll rs d = some (resolveAll rs d) := by
  induction rs generalizing d with
  | nil => rfl
  | cons r rs ih =>
    rw [strictResolveAll, strictResolve_eq hcoherent (hrs r List.mem_cons_self), resolveAll]
    cases hr : d.resolve r with
    | error f => rfl
    | ok d₁ =>
      obtain ⟨s, _, _, _, rfl⟩ := bound_of_resolve hr
      refine ih hcoherent ?_
      intro q hq
      simpa [patch] using hrs q (List.mem_cons_of_mem _ hq)

end Draft

theorem strictAssembleLines_eq (hsound : d.Sound) :
    strictAssembleLines limit levels inMacro number lines d =
      some (assembleLines limit levels inMacro number lines d) := by
  fun_induction assembleLines limit levels inMacro number lines d
  case case1 => rw [strictAssembleLines]
  case case2 number d line rest here f hadvance =>
    rw [strictAssembleLines]
    simp only [here] at hadvance
    simp only [Draft.strictAdvance_eq hsound, hadvance]
  case case3 number d line rest here d' skipped hadvance ih =>
    rw [strictAssembleLines]
    simp only [here] at hadvance
    simp only [Draft.strictAdvance_eq hsound, hadvance]
    exact ih ((leads_of_advance hadvance).sound hsound)
  case case4 number d line rest here d' name body hadvance =>
    rw [strictAssembleLines]
    simp only [here] at hadvance
    simp only [Draft.strictAdvance_eq hsound, hadvance, here]
  case case5 here d' name body hadvance levels d'' f hbody ih =>
    have hinside := (leads_of_expand hadvance (.expanding name (limit - levels))).sound hsound
    rw [strictAssembleLines]
    simp only [here, d''] at hadvance hbody ih
    simp only [Draft.strictAdvance_eq hsound, hadvance, ih hinside, hbody]
  case case6 here d' name body hadvance levels d'' d₃ hbody ihbody ihrest =>
    have hinside := (leads_of_expand hadvance (.expanding name (limit - levels))).sound hsound
    rw [strictAssembleLines]
    simp only [here, d''] at hadvance hbody ihbody
    simp only [Draft.strictAdvance_eq hsound, hadvance, ihbody hinside, hbody]
    exact ihrest ((Trace.of_passes (passes_of_assembleLines hbody)).sound hinside)

theorem strictFinish_eq (hsound : d.Sound) (hcovers : d.Covers) :
    d.strictFinish = some d.finish := by
  unfold Draft.strictFinish Draft.finish
  rw [Draft.strictResolveAll_eq hsound.coherent fun r hr => hsound.address_lt hcovers hr]
  cases hresolve : Draft.resolveAll d.references.toList d with
  | error f => rfl
  | ok d' =>
    obtain ⟨_, hused, _, _, hcells⟩ := Draft.resolveAll_frame hresolve
    have hslices : d'.used ≤ d'.cells.size ∧ d'.extent ≤ d'.cells.size := by
      rw [hused, Draft.extent_resolveAll hresolve, hcells, hsound.length_cells]
      exact ⟨hcovers.used_le.trans hcovers.extent_le, hcovers.extent_le⟩
    simp only [Draft.strictProgram, if_pos hslices, Option.map_some]
    split <;> rfl

theorem strictAssembleSource_eq (config : Config) (lines : List String) :
    strictAssembleSource config lines = some (assembleSource config lines) := by
  have hlines : strictAssembleLines config.maxMacroDepth config.maxMacroDepth none 1 lines
      (Draft.empty config.size) = some (pass config lines) :=
    strictAssembleLines_eq (Draft.sound_empty config.size)
  rw [strictAssembleSource, hlines, assembleSource_eq]
  cases hpass : pass config lines with
  | error f => rfl
  | ok d =>
    obtain ⟨hsound, hcovers⟩ := sound_of_pass hpass
    exact strictFinish_eq hsound hcovers

end WordMachine.Assembly
