import Mathlib.Order.Interval.Finset.Nat
import WordMachine.Assembly.Program

/-!
# The visits of a pass

The lines that a pass comes to, one after the other, each with the draft that it finds. The lines
of a macro body stand behind the line that calls the macro, once for every call. A pass that comes
to its end has a derivation, by which properties of passes are proved.
-/

namespace WordMachine.Assembly

structure Visit where
  here : Location
  line : String
  rest : List String
  before : Draft

namespace Visit

def statement? (v : Visit) : Option Statement := (Statement.ofFields (tokenize v.line)).toOption

def effect? (v : Visit) : Option Effect :=
  if v.before.isFull then none
  else v.statement?.bind fun s => (v.before.effectOf s).toOption

def word? (v : Visit) : Option Word :=
  match v.effect? with
  | some (.emit w) | some (.emitForward _ w) => some w
  | _ => none

def emission? (v : Visit) : Option (Nat × Word) := v.word?.map fun w => (v.before.used, w)

def stored? (v : Visit) : Option (Nat × Word) :=
  match v.effect? with
  | some (.store address w) => some (address, w)
  | _ => none

def defined? (v : Visit) : Option Symbol :=
  match v.effect? with
  | some (.define s) | some (.defineCell s) => some s
  | _ => none

def forward? (v : Visit) : Option Reference :=
  match v.effect? with
  | some (.emitForward name _) => some ⟨name, v.before.used, v.here⟩
  | _ => none

def cells (v : Visit) : Finset Nat :=
  match v.effect? with
  | some (.defineCell _) => {v.before.data}
  | some (.reserve count) => Finset.Ioc (v.before.data - count) v.before.data
  | _ => ∅

def expands (v : Visit) : Bool :=
  match v.effect? with
  | some (.expand _ _) => true
  | _ => false

end Visit

def visits (limit levels : Nat) (inMacro : Option String) (number : Nat) (lines : List String)
    (d : Draft) : List Visit :=
  match lines with
  | [] => []
  | line :: rest =>
    let here : Location := ⟨number, inMacro⟩
    ⟨here, line, rest, d⟩ ::
      match d.advance here line rest with
      | .error _ => []
      | .ok (.next d skipped) =>
        visits limit levels inMacro (number + 1 + skipped) (rest.drop skipped) d
      | .ok (.expand d name body) =>
        match levels with
        | 0 => []
        | levels + 1 =>
          let d := d.note (.expanding name (limit - levels))
          visits limit levels (some name) 1 body d ++
            match assembleLines limit levels (some name) 1 body d with
            | .error _ => []
            | .ok d => visits limit (levels + 1) inMacro (number + 1) rest d
termination_by (levels, lines.length)
decreasing_by
  · simp only [List.length_drop, List.length_cons]
    exact Prod.Lex.right _ (by omega)
  · exact Prod.Lex.left _ _ (by omega)
  · exact Prod.Lex.right _ (by simp)

def pass (config : Config) (lines : List String) : Except Failure Draft :=
  assembleLines config.maxMacroDepth config.maxMacroDepth none 1 lines (Draft.empty config.size)

def visitsOf (config : Config) (lines : List String) : List Visit :=
  visits config.maxMacroDepth config.maxMacroDepth none 1 lines (Draft.empty config.size)

section Line

variable {limit levels number skipped : Nat} {inMacro : Option String} {line name : String}
  {rest body : List String} {d d₁ d₂ : Draft} {f : Failure}

theorem assembleLines_of_error (h : d.advance ⟨number, inMacro⟩ line rest = .error f) :
    assembleLines limit levels inMacro number (line :: rest) d = .error f := by
  rw [assembleLines]
  simp only [h]

theorem visits_of_error (h : d.advance ⟨number, inMacro⟩ line rest = .error f) :
    visits limit levels inMacro number (line :: rest) d =
      [⟨⟨number, inMacro⟩, line, rest, d⟩] := by
  rw [visits]
  simp only [h]

theorem assembleLines_of_next (h : d.advance ⟨number, inMacro⟩ line rest = .ok (.next d₁ skipped)) :
    assembleLines limit levels inMacro number (line :: rest) d =
      assembleLines limit levels inMacro (number + 1 + skipped) (rest.drop skipped) d₁ := by
  rw [assembleLines]
  simp only [h]

theorem visits_of_next (h : d.advance ⟨number, inMacro⟩ line rest = .ok (.next d₁ skipped)) :
    visits limit levels inMacro number (line :: rest) d =
      ⟨⟨number, inMacro⟩, line, rest, d⟩ ::
        visits limit levels inMacro (number + 1 + skipped) (rest.drop skipped) d₁ := by
  rw [visits]
  simp only [h]

theorem assembleLines_of_tooDeep
    (h : d.advance ⟨number, inMacro⟩ line rest = .ok (.expand d₁ name body)) :
    assembleLines limit 0 inMacro number (line :: rest) d =
      .error (d₁.failure ⟨number, inMacro⟩ (.macroDepthExceeded name limit)) := by
  rw [assembleLines]
  simp only [h]

theorem visits_of_tooDeep
    (h : d.advance ⟨number, inMacro⟩ line rest = .ok (.expand d₁ name body)) :
    visits limit 0 inMacro number (line :: rest) d = [⟨⟨number, inMacro⟩, line, rest, d⟩] := by
  rw [visits]
  simp only [h]

theorem assembleLines_of_expand_error
    (h : d.advance ⟨number, inMacro⟩ line rest = .ok (.expand d₁ name body))
    (hbody : assembleLines limit levels (some name) 1 body
      (d₁.note (.expanding name (limit - levels))) = .error f) :
    assembleLines limit (levels + 1) inMacro number (line :: rest) d = .error f := by
  rw [assembleLines]
  simp only [h, hbody]

theorem visits_of_expand_error
    (h : d.advance ⟨number, inMacro⟩ line rest = .ok (.expand d₁ name body))
    (hbody : assembleLines limit levels (some name) 1 body
      (d₁.note (.expanding name (limit - levels))) = .error f) :
    visits limit (levels + 1) inMacro number (line :: rest) d =
      ⟨⟨number, inMacro⟩, line, rest, d⟩ ::
        visits limit levels (some name) 1 body (d₁.note (.expanding name (limit - levels))) := by
  rw [visits]
  simp only [h, hbody, List.append_nil]

theorem assembleLines_of_expand
    (h : d.advance ⟨number, inMacro⟩ line rest = .ok (.expand d₁ name body))
    (hbody : assembleLines limit levels (some name) 1 body
      (d₁.note (.expanding name (limit - levels))) = .ok d₂) :
    assembleLines limit (levels + 1) inMacro number (line :: rest) d =
      assembleLines limit (levels + 1) inMacro (number + 1) rest d₂ := by
  rw [assembleLines]
  simp only [h, hbody]

theorem visits_of_expand (h : d.advance ⟨number, inMacro⟩ line rest = .ok (.expand d₁ name body))
    (hbody : assembleLines limit levels (some name) 1 body
      (d₁.note (.expanding name (limit - levels))) = .ok d₂) :
    visits limit (levels + 1) inMacro number (line :: rest) d =
      ⟨⟨number, inMacro⟩, line, rest, d⟩ ::
        (visits limit levels (some name) 1 body (d₁.note (.expanding name (limit - levels))) ++
          visits limit (levels + 1) inMacro (number + 1) rest d₂) := by
  rw [visits]
  simp only [h, hbody]

end Line

/-- How a pass leads from one draft to another, and its visits. -/
inductive Passes (limit : Nat) :
    Nat → Option String → Nat → List String → Draft → List Visit → Draft → Prop
  | done {levels inMacro number d} : Passes limit levels inMacro number [] d [] d
  | next {levels inMacro number line rest d d₁ d₂ skipped vs}
      (h : d.advance ⟨number, inMacro⟩ line rest = .ok (.next d₁ skipped))
      (tail : Passes limit levels inMacro (number + 1 + skipped) (rest.drop skipped) d₁ vs d₂) :
      Passes limit levels inMacro number (line :: rest) d
        (⟨⟨number, inMacro⟩, line, rest, d⟩ :: vs) d₂
  | expand {levels inMacro number line rest name body d d₀ d₁ d₂ vs ws}
      (h : d.advance ⟨number, inMacro⟩ line rest = .ok (.expand d₀ name body))
      (inner : Passes limit levels (some name) 1 body
        (d₀.note (.expanding name (limit - levels))) vs d₁)
      (tail : Passes limit (levels + 1) inMacro (number + 1) rest d₁ ws d₂) :
      Passes limit (levels + 1) inMacro number (line :: rest) d
        (⟨⟨number, inMacro⟩, line, rest, d⟩ :: (vs ++ ws)) d₂

variable {limit levels number : Nat} {inMacro : Option String} {lines : List String}
  {d d₁ : Draft} {vs : List Visit}

theorem passes_of_assembleLines
    (h : assembleLines limit levels inMacro number lines d = .ok d₁) :
    Passes limit levels inMacro number lines d (visits limit levels inMacro number lines d) d₁ := by
  fun_induction assembleLines limit levels inMacro number lines d generalizing d₁
  case case1 =>
    obtain rfl := Except.ok.inj h
    rw [visits]
    exact .done
  case case2 | case4 | case5 => contradiction
  case case3 hadvance ih =>
    rw [visits_of_next hadvance]
    exact .next hadvance (ih h)
  case case6 hadvance levels d'' d₃ hbody ihbody ihrest =>
    rw [visits_of_expand hadvance hbody]
    exact .expand hadvance (ihbody hbody) (ihrest h)

theorem assembleLines_of_passes (h : Passes limit levels inMacro number lines d vs d₁) :
    assembleLines limit levels inMacro number lines d = .ok d₁ := by
  induction h with
  | done => rw [assembleLines]
  | next h tail ih => rw [assembleLines_of_next h, ih]
  | expand h inner tail ihinner ihtail => rw [assembleLines_of_expand h ihinner, ihtail]

theorem visits_of_passes (h : Passes limit levels inMacro number lines d vs d₁) :
    visits limit levels inMacro number lines d = vs := by
  induction h with
  | done => rw [visits]
  | next h tail ih => rw [visits_of_next h, ih]
  | expand h inner tail ihinner ihtail =>
    rw [visits_of_expand h (assembleLines_of_passes inner), ihinner, ihtail]

end WordMachine.Assembly
