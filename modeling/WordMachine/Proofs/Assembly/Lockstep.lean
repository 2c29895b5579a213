import WordMachine.Proofs.Assembly.Renaming
import WordMachine.Proofs.Assembly.Visits

/-!
# Passes in lockstep

Two passes over lines that correspond one by one. If a line and the line that corresponds to it lead
from drafts that correspond to such drafts, or to failures that do, so do the passes.
-/

namespace WordMachine.Assembly

inductive Advance.Corresponds (D : Draft → Draft → Prop) (L : String → String → Prop)
    (f : String → String) : Advance → Advance → Prop
  | next {d d' : Draft} (h : D d d') (skipped : Nat) :
      Corresponds D L f (.next d skipped) (.next d' skipped)
  | expand {d d' : Draft} (h : D d d') (name : String) {body body' : List String}
      (hbody : List.Forall₂ L body body') :
      Corresponds D L f (.expand d name body) (.expand d' (f name) body')

/-- What is in lockstep: drafts, lines and failures, with the names `f` under which the macros of
the one source are known in the other. -/
structure Lockstep (limit : Nat) (F : Failure → Failure → Prop) (D : Draft → Draft → Prop)
    (L : String → String → Prop) (f : String → String) : Prop where
  advance : ∀ {d d' line line' rest rest'} (number : Nat) (inMacro : Option String), D d d' →
    L line line' → List.Forall₂ L rest rest' →
      Corresponds F (Advance.Corresponds D L f) (d.advance ⟨number, inMacro⟩ line rest)
        (d'.advance ⟨number, inMacro.map f⟩ line' rest')
  expanding : ∀ {d d'} (name : String) (depth : Nat), D d d' →
    D (d.note (.expanding name depth)) (d'.note (.expanding (f name) depth))
  tooDeep : ∀ {d d'} (number : Nat) (inMacro : Option String) (name : String), D d d' →
    F (d.failure ⟨number, inMacro⟩ (.macroDepthExceeded name limit))
      (d'.failure ⟨number, inMacro.map f⟩ (.macroDepthExceeded (f name) limit))

theorem Lockstep.corresponds {limit levels number : Nat} {inMacro : Option String}
    {F : Failure → Failure → Prop} {D : Draft → Draft → Prop} {L : String → String → Prop}
    {f : String → String} {lines lines' : List String} {d d' : Draft}
    (hsteps : Lockstep limit F D L f) (h : D d d') (hlines : List.Forall₂ L lines lines') :
    Corresponds F D (assembleLines limit levels inMacro number lines d)
      (assembleLines limit levels (inMacro.map f) number lines' d') := by
  -- the induction follows the one list of lines; the other is taken apart beside it
  fun_induction assembleLines limit levels inMacro number lines d
    generalizing lines' d'
  case case1 =>
    cases hlines
    rw [assembleLines]
    exact .ok h
  case case2 here failure hadvance =>
    cases hlines with
    | cons hline hrest =>
      obtain ⟨failure', hadvance', hf⟩ := (hsteps.advance _ _ h hline hrest).of_error hadvance
      rw [assembleLines_of_error hadvance']
      exact .error hf
  case case3 here d₁ skipped hadvance ih =>
    cases hlines with
    | cons hline hrest =>
      obtain ⟨_, hadvance', hstep⟩ := (hsteps.advance _ _ h hline hrest).of_ok hadvance
      cases hstep with
      | next h₁ =>
        rw [assembleLines_of_next hadvance']
        exact ih h₁ (List.forall₂_drop skipped hrest)
  case case4 here d₁ name body hadvance =>
    cases hlines with
    | cons hline hrest =>
      obtain ⟨_, hadvance', hstep⟩ := (hsteps.advance _ _ h hline hrest).of_ok hadvance
      cases hstep with
      | expand h₁ =>
        rw [assembleLines_of_tooDeep hadvance']
        exact .error (hsteps.tooDeep _ _ name h₁)
  case case5 here d₁ name body hadvance levels d₂ failure hinner ih =>
    cases hlines with
    | cons hline hrest =>
      obtain ⟨_, hadvance', hstep⟩ := (hsteps.advance _ _ h hline hrest).of_ok hadvance
      cases hstep with
      | expand h₁ _ hbody =>
        obtain ⟨failure', hinner', hf⟩ := (ih (hsteps.expanding name _ h₁) hbody).of_error hinner
        rw [Option.map_some] at hinner'
        rw [assembleLines_of_expand_error hadvance' hinner']
        exact .error hf
  case case6 here d₁ name body hadvance levels d₂ d₃ hinner ihinner ihrest =>
    cases hlines with
    | cons hline hrest =>
      obtain ⟨_, hadvance', hstep⟩ := (hsteps.advance _ _ h hline hrest).of_ok hadvance
      cases hstep with
      | expand h₁ _ hbody =>
        obtain ⟨d₃', hinner', h₃⟩ := (ihinner (hsteps.expanding name _ h₁) hbody).of_ok hinner
        rw [Option.map_some] at hinner'
        rw [assembleLines_of_expand hadvance' hinner']
        exact ihrest h₃ hrest

end WordMachine.Assembly
