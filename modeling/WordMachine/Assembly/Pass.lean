import WordMachine.Assembly.Effect

/-!
# The pass over the lines

Lines are assembled one after the other. A line that opens a macro takes the lines of the body with
it; a line that calls one has the body assembled in its place. Calls nest up to a limit, so the
pass ends even where macros call each other.
-/

namespace WordMachine.Assembly

structure Failure where
  error : Error
  journal : Journal

/-- How the pass goes on after a line: past `skipped` further lines, or into the body of a macro. -/
inductive Advance
  | next (d : Draft) (skipped : Nat)
  | expand (d : Draft) (name : String) (body : List String)

namespace Draft

def failure (d : Draft) (here : Location) (cause : Cause) : Failure :=
  ⟨⟨cause, some here⟩, d.journal⟩

/-- The capture is noted even where the name turns out to be taken. -/
def capture (d : Draft) (here : Location) (name : String) (rest : List String) :
    Except Failure Advance :=
  if here.inMacro.isSome then .error (d.failure here (.nestedMacro name))
  else
    match captureBody rest with
    | none => .error (d.failure here (.unterminatedMacro name))
    | some (body, _) =>
      let d := d.note (.captured name body.length)
      match d.macros.define name body with
      | .error cause => .error (d.failure here cause)
      | .ok macros => .ok (.next (d.withMacros macros) (body.length + 1))

def obey (d : Draft) (here : Location) (s : Statement) (rest : List String) :
    Except Failure Advance :=
  match s with
  | .beginMacro name => d.capture here name rest
  | s =>
    match d.effectOf s with
    | .error cause => .error (d.failure here cause)
    | .ok (.expand name body) => .ok (.expand d name body)
    | .ok effect => .ok (.next (d.apply here s effect) 0)

/-- One line. Space is checked before the line is looked at, also where it is blank. -/
def advance (d : Draft) (here : Location) (line : String) (rest : List String) :
    Except Failure Advance :=
  if d.isFull then .error (d.failure here .spaceExhausted)
  else
    match Statement.ofFields (tokenize line) with
    | .error cause => .error (d.failure here cause)
    | .ok statement => d.obey here statement rest

end Draft

/-- `levels` is how much deeper macro calls may nest, out of `limit`; `number` is that of the first
of the lines. -/
def assembleLines (limit levels : Nat) (inMacro : Option String) (number : Nat)
    (lines : List String) (d : Draft) : Except Failure Draft :=
  match lines with
  | [] => .ok d
  | line :: rest =>
    let here : Location := ⟨number, inMacro⟩
    match d.advance here line rest with
    | .error f => .error f
    | .ok (.next d skipped) =>
      assembleLines limit levels inMacro (number + 1 + skipped) (rest.drop skipped) d
    | .ok (.expand d name body) =>
      match levels with
      | 0 => .error (d.failure here (.macroDepthExceeded name limit))
      | levels + 1 =>
        let d := d.note (.expanding name (limit - levels))
        match assembleLines limit levels (some name) 1 body d with
        | .error f => .error f
        | .ok d => assembleLines limit (levels + 1) inMacro (number + 1) rest d
termination_by (levels, lines.length)
decreasing_by
  · simp only [List.length_drop, List.length_cons]
    exact Prod.Lex.right _ (by omega)
  · exact Prod.Lex.left _ _ (by omega)
  · exact Prod.Lex.right _ (by simp)

end WordMachine.Assembly
