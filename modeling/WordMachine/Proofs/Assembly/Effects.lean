import WordMachine.Assembly.Effect

/-!
# Statements and their effects

`Does` lists what a statement can do to a draft, with what has been checked before it does so.
-/

namespace WordMachine

variable {α β ε : Type} {f : α → β} {x : Except ε α}

theorem ok_of_map {b : β} (h : x.map f = .ok b) : ∃ a, x = .ok a ∧ b = f a := by
  cases x with
  | error cause => contradiction
  | ok a => exact ⟨a, rfl, (Except.ok.inj h).symm⟩

theorem error_of_map {e : ε} (h : x.map f = .error e) : x = .error e := by
  cases x with
  | error e' =>
    obtain rfl := Except.error.inj h
    rfl
  | ok a => contradiction

namespace Assembly

namespace Draft

inductive Does (d : Draft) : Statement → Effect → Prop
  | blank : Does d .blank .nothing
  | beginMacro {name : String} : Does d (.beginMacro name) .nothing
  | word {field : String} {w : Word} (hword : d.singleEffect field = .ok (.emit w)) :
      Does d (.single field) (.emit w)
  | call {name : String} {body : List String} (hfree : d.symbols.get? name = none)
      (hbody : d.macros.get? name = some body) : Does d (.single name) (.expand name body)
  | dataCell {name : String} (hfree : d.symbols.contains name = false) :
      Does d (.dataCell name) (.defineCell ⟨name, .dataCell, UInt16.ofNat d.data⟩)
  | label {name : String} (hfree : d.symbols.contains name = false) :
      Does d (.label name) (.define ⟨name, .label, UInt16.ofNat d.used⟩)
  | allocate {count : String} {n : Nat} (hcount : d.countOf count = .ok n) (hroom : n ≤ d.data) :
      Does d (.allocate count) (.reserve n)
  | number {opcode : Opcode} {token : String} {w : Word} (hnumber : number? token = .ok (some w))
      (hw : w ≤ operandMask) :
      Does d (.instruction opcode token) (.emit (Instruction.encode ⟨opcode, w⟩))
  | known {opcode : Opcode} {name : String} {s : Symbol} (hname : number? name = .ok none)
      (hs : d.symbols.get? name = some s) (hvalue : s.value ≤ operandMask) :
      Does d (.instruction opcode name) (.emit (Instruction.encode ⟨opcode, s.value⟩))
  | forward {opcode : Opcode} {name : String} (hname : number? name = .ok none)
      (hs : d.symbols.get? name = none) :
      Does d (.instruction opcode name) (.emitForward name (Instruction.encode ⟨opcode, 0⟩))
  | set {target value : String} {address w : Word} (htarget : d.valueOf target = .ok address)
      (hinside : address.toNat < d.size.words) (hvalue : d.valueOf value = .ok w) :
      Does d (.set target value) (.store address.toNat w)
  | constant {name value : String} {w : Word} (hvalue : d.valueOf value = .ok w)
      (hfree : d.symbols.contains name = false) :
      Does d (.constant name value) (.define ⟨name, .constant, w⟩)

variable {d : Draft} {name token count field target value : String} {opcode : Opcode}
  {s : Statement} {e e' : Effect} {w w' : Word}

theorem operandOf_ok (h : operandOf w = .ok w') : w' = w ∧ w ≤ operandMask := by
  unfold operandOf at h
  split at h
  · contradiction
  · rename_i hle
    exact ⟨(Except.ok.inj h).symm, by simpa using hle⟩

theorem unlessDefined_ok (h : d.unlessDefined name e = .ok e') :
    d.symbols.contains name = false ∧ e' = e := by
  unfold unlessDefined at h
  split at h
  · contradiction
  · rename_i hfree
    exact ⟨by simpa using hfree, (Except.ok.inj h).symm⟩

theorem does_of_singleEffect (h : d.singleEffect field = .ok e) : d.Does (.single field) e := by
  have hcopy := h
  unfold singleEffect at h
  split at h
  · contradiction
  · obtain rfl := Except.ok.inj h
    exact .word hcopy
  · split at h
    · obtain rfl := Except.ok.inj h
      exact .word hcopy
    · split at h
      · obtain rfl := Except.ok.inj h
        exact .word hcopy
      · rename_i hfree
        split at h
        · rename_i hbody
          obtain rfl := Except.ok.inj h
          exact .call hfree hbody
        · contradiction

theorem does_of_instructionEffect (h : d.instructionEffect opcode token = .ok e) :
    d.Does (.instruction opcode token) e := by
  unfold instructionEffect at h
  split at h
  · contradiction
  · rename_i hnumber
    obtain ⟨operand, hoperand, rfl⟩ := ok_of_map h
    obtain ⟨rfl, hw⟩ := operandOf_ok hoperand
    exact .number hnumber hw
  · rename_i hname
    split at h
    · rename_i hs
      obtain ⟨operand, hoperand, rfl⟩ := ok_of_map h
      obtain ⟨rfl, hw⟩ := operandOf_ok hoperand
      exact .known hname hs hw
    · rename_i hs
      obtain rfl := Except.ok.inj h
      exact .forward hname hs

theorem does_of_setEffect (h : d.setEffect target value = .ok e) :
    d.Does (.set target value) e := by
  unfold setEffect at h
  split at h
  · contradiction
  · rename_i htarget
    split at h
    · contradiction
    · rename_i hinside
      obtain ⟨w, hvalue, rfl⟩ := ok_of_map h
      exact .set htarget (by simpa using hinside) hvalue

theorem does_of_allocateEffect (h : d.allocateEffect count = .ok e) :
    d.Does (.allocate count) e := by
  unfold allocateEffect at h
  split at h
  · contradiction
  · rename_i hcount
    split at h
    · contradiction
    · rename_i hroom
      obtain rfl := Except.ok.inj h
      exact .allocate hcount (by simpa using hroom)

theorem does_of_effectOf (h : d.effectOf s = .ok e) : d.Does s e := by
  cases s with
  | blank =>
    obtain rfl := Except.ok.inj h
    exact .blank
  | beginMacro name =>
    obtain rfl := Except.ok.inj h
    exact .beginMacro
  | single field => exact does_of_singleEffect h
  | dataCell name =>
    obtain ⟨hfree, rfl⟩ := unlessDefined_ok h
    exact .dataCell hfree
  | label name =>
    obtain ⟨hfree, rfl⟩ := unlessDefined_ok h
    exact .label hfree
  | allocate count => exact does_of_allocateEffect h
  | instruction opcode operand => exact does_of_instructionEffect h
  | set target value => exact does_of_setEffect h
  | constant name value =>
    simp only [effectOf] at h
    split at h
    · contradiction
    · rename_i hvalue
      obtain ⟨hfree, rfl⟩ := unlessDefined_ok h
      exact .constant hvalue hfree

end Draft

end Assembly

end WordMachine
