import WordMachine.Proofs.Assembly.Alike
import WordMachine.Proofs.Assembly.Renaming

/-!
# Drafts with other texts in their macros

The fields of a line are all that the assembler knows of it. The bodies of macros are kept as text,
so two sources whose lines have the same fields lead to drafts in which the bodies of a macro may
differ, but not in their fields. Which lines of a body count is left open: all of them, or those
that have a field.
-/

namespace WordMachine.Assembly

def fieldsOf (counts : List String → Bool) (lines : List String) : List (List String) :=
  (lines.map tokenize).filter counts

variable {counts : List String → Bool} {lines lines' rest : List String} {line : String}

theorem fieldsOf_cons_of_pos (h : counts (tokenize line) = true) :
    fieldsOf counts (line :: rest) = tokenize line :: fieldsOf counts rest :=
  List.filter_cons_of_pos h

theorem fieldsOf_cons_of_neg (h : ¬counts (tokenize line) = true) :
    fieldsOf counts (line :: rest) = fieldsOf counts rest :=
  List.filter_cons_of_neg h

def closes : List String → Bool
  | first :: _ => Directive.ofKeyword? first = some .endMacro
  | [] => false

theorem closesMacro_eq (line : String) : closesMacro line = closes (tokenize line) := by
  unfold closesMacro
  cases tokenize line <;> rfl

/-- The fields of the body and those of the lines after it, found without the lines. -/
def captureFields : List (List String) → Option (List (List String) × List (List String))
  | [] => none
  | fields :: rest =>
    if closes fields then some ([], rest)
    else (captureFields rest).map fun parts => (fields :: parts.1, parts.2)

theorem captureFields_fieldsOf (hcloses : ∀ fields, closes fields = true → counts fields = true)
    (lines : List String) : captureFields (fieldsOf counts lines) =
      (captureBody lines).map fun parts => (fieldsOf counts parts.1, fieldsOf counts parts.2) := by
  induction lines with
  | nil => rfl
  | cons line rest ih =>
    rw [captureBody_cons, closesMacro_eq]
    by_cases hclose : closes (tokenize line) = true
    · rw [fieldsOf_cons_of_pos (hcloses _ hclose), captureFields, if_pos hclose, if_pos hclose]
      rfl
    · by_cases hcounts : counts (tokenize line) = true
      · rw [fieldsOf_cons_of_pos hcounts, captureFields, if_neg hclose, if_neg hclose, ih]
        simp only [Option.map_map, Function.comp_def, fieldsOf_cons_of_pos hcounts]
      · rw [fieldsOf_cons_of_neg hcounts, if_neg hclose, ih]
        simp only [Option.map_map, Function.comp_def, fieldsOf_cons_of_neg hcounts]

theorem captureBody_of_fieldsOf (h : fieldsOf counts lines = fieldsOf counts lines')
    (hcloses : ∀ fields, closes fields = true → counts fields = true) :
    Option.Rel (fun parts parts' => fieldsOf counts parts.1 = fieldsOf counts parts'.1 ∧
      fieldsOf counts parts.2 = fieldsOf counts parts'.2) (captureBody lines)
        (captureBody lines') := by
  have hparts := congrArg captureFields h
  rw [captureFields_fieldsOf hcloses, captureFields_fieldsOf hcloses] at hparts
  generalize captureBody lines = x, captureBody lines' = x' at hparts
  cases x with
  | none =>
    cases x' with
    | none => exact .none
    | some parts' => contradiction
  | some parts =>
    cases x' with
    | none => contradiction
    | some parts' => exact .some (Prod.mk.inj (Option.some.inj hparts))

inductive Effect.Recast (counts : List String → Bool) : Effect → Effect → Prop
  | same (e : Effect) : Recast counts e e
  | expand (name : String) {body body' : List String}
      (h : fieldsOf counts body = fieldsOf counts body') :
      Recast counts (.expand name body) (.expand name body')

namespace Draft

/-- Nothing but the texts of the macros differs. -/
inductive Recast (counts : List String → Bool) (d : Draft) : Draft → Prop
  | intro (macros : MacroTable)
    (h : ∀ name, Option.Rel (fun body body' => fieldsOf counts body = fieldsOf counts body')
      (d.macros.get? name) (macros.get? name)) :
    d.Recast counts { d with macros := macros }

variable {d d' e : Draft} {here : Location} {s : Statement}

namespace Recast

theorem refl (counts : List String → Bool) (d : Draft) : d.Recast counts d := by
  refine .intro d.macros fun name => ?_
  cases d.macros.get? name with
  | none => exact .none
  | some body => exact .some rfl

theorem isFull (h : d.Recast counts e) : e.isFull = d.isFull := by
  obtain ⟨macros, -⟩ := h
  rfl

theorem failure (h : d.Recast counts e) (here : Location) (cause : Cause) :
    e.failure here cause = d.failure here cause := by
  obtain ⟨macros, -⟩ := h
  rfl

theorem note (h : d.Recast counts e) (entry : Entry) :
    (d.note entry).Recast counts (e.note entry) := by
  obtain ⟨macros, hbodies⟩ := h
  exact .intro macros hbodies

theorem apply (h : d.Recast counts e) (here : Location) (s : Statement) {f f' : Effect}
    (hf : f.Recast counts f') : (d.apply here s f).Recast counts (e.apply here s f') := by
  obtain ⟨macros, hbodies⟩ := h
  cases hf with
  | expand => exact .intro macros hbodies
  | same => cases f <;> exact .intro macros hbodies

theorem contains_macro (h : d.Recast counts e) (name : String) :
    e.macros.contains name = d.macros.contains name := by
  obtain ⟨macros, hbodies⟩ := h
  have hbody := hbodies name
  rw [MacroTable.contains_eq_isSome_get?, MacroTable.contains_eq_isSome_get?]
  generalize d.macros.get? name = x, macros.get? name = x' at hbody ⊢
  cases hbody <;> rfl

theorem insertMacro (h : d.Recast counts e) (name : String) {body body' : List String}
    (hbody : fieldsOf counts body = fieldsOf counts body') :
    (d.withMacros (d.macros.insert name body)).Recast counts
      (e.withMacros (e.macros.insert name body')) := by
  obtain ⟨macros, hbodies⟩ := h
  refine .intro (macros.insert name body') fun other => ?_
  simp only [Draft.withMacros, MacroTable.get?_insert]
  split
  · exact .some hbody
  · exact hbodies other

theorem singleEffect (h : d.Recast counts e) (field : String) :
    Corresponds Eq (Effect.Recast counts) (d.singleEffect field) (e.singleEffect field) := by
  obtain ⟨macros, hbodies⟩ := h
  unfold Draft.singleEffect
  cases number? field with
  | error cause => exact .error rfl
  | ok w =>
    cases w with
    | some w => exact .ok (.same _)
    | none =>
      cases pseudoWord? field with
      | some w => exact .ok (.same _)
      | none =>
        cases d.symbols.get? field with
        | some s => exact .ok (.same _)
        | none =>
          have hbody := hbodies field
          generalize d.macros.get? field = x, macros.get? field = x' at hbody
          cases hbody with
          | none => exact .error rfl
          | some hbody => exact .ok (.expand field hbody)

theorem effectOf (h : d.Recast counts e) (s : Statement) :
    Corresponds Eq (Effect.Recast counts) (d.effectOf s) (e.effectOf s) := by
  cases s with
  | single field => exact h.singleEffect field
  | _ =>
    obtain ⟨macros, -⟩ := h
    exact .refl (fun _ => rfl) .same _

theorem resolve (h : d.Recast counts e) (r : Reference) :
    Corresponds Eq (Recast counts) (d.resolve r) (e.resolve r) := by
  obtain ⟨macros, hbodies⟩ := h
  unfold Draft.resolve
  cases d.symbols.get? r.name with
  | none => exact .error rfl
  | some symbol =>
    obtain ⟨name, kind, value⟩ := symbol
    cases kind with
    | dataCell | constant => exact .error rfl
    | label =>
      simp only
      cases operandOf value with
      | error cause => exact .error rfl
      | ok operand => exact .ok (.intro macros hbodies)

theorem resolveAll (h : d.Recast counts e) (rs : List Reference) :
    Corresponds Eq (Recast counts) (Draft.resolveAll rs d) (Draft.resolveAll rs e) := by
  induction rs generalizing d e with
  | nil => exact .ok h
  | cons r rs ih =>
    have hresolve := h.resolve r
    rw [Draft.resolveAll, Draft.resolveAll]
    generalize d.resolve r = x, e.resolve r = x' at hresolve
    cases hresolve with
    | error hf => exact .error hf
    | ok h₁ => exact ih h₁

theorem finish (h : d.Recast counts e) : e.finish = d.finish := by
  have hresolve := h.resolveAll d.references.toList
  have hreferences : e.references = d.references := by
    obtain ⟨macros, -⟩ := h
    rfl
  rw [Draft.finish, Draft.finish, hreferences]
  generalize Draft.resolveAll d.references.toList d = x,
    Draft.resolveAll d.references.toList e = x' at hresolve
  cases hresolve with
  | error hf => rw [hf]
  | ok h₁ =>
    obtain ⟨macros, -⟩ := h₁
    rfl

end Recast

end Draft

end WordMachine.Assembly
