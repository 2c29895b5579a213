import WordMachine.Proofs.Assembly.Failures
import WordMachine.Proofs.Assembly.Operands

/-!
# Locations of errors

Every visit stands at a line of the source, or of the body of a macro that the source defines at a
line to which the pass has come. An error has the location of the visit that it is about, also where
it is found only after the pass, and the names in its cause are fields of the line there.
-/

namespace WordMachine.Assembly

/-- What the cause of an error says of the fields of its line. -/
def Cause.Fits (fields : List String) : Cause → Prop
  | unknownCommand name | duplicateDefinition name | unresolvedReference name
  | unterminatedMacro name | malformedNumber name | missingOperand name | undefinedSymbol name
  | notAConstant name | nestedMacro name | macroDepthExceeded name _ => name ∈ fields
  | tooManyFields count => count = fields.length ∧ 3 < count
  | spaceExhausted | operandTooLarge _ | addressOutOfRange _ | strayEnd => True

variable {limit levels number : Nat} {inMacro : Option String} {line name : String}
  {fields lines rest text body : List String} {here : Location} {d d' : Draft} {v : Visit}
  {vs : List Visit} {s : Statement} {cause : Cause} {f : Failure} {config : Config} {x : Error}

theorem Statement.Flaw.fits (h : Flaw fields cause) : cause.Fits fields := by
  cases h with
  | strayEnd => trivial
  | missingOperand hname | unknownCommand hname => exact hname
  | tooManyFields hlength => exact ⟨rfl, hlength⟩

theorem Draft.Blames.fits (h : d.Blames s cause) (hs : s.arguments ⊆ fields) :
    cause.Fits fields := by
  cases h with
  | malformed ht | undefined ht | taken ht => exact hs ht
  | misused _ _ hflaw =>
    cases hflaw with
    | strayEnd => trivial
    | missingOperand hname | unknownCommand hname => exact hs hname
    | tooManyFields hlength => simp at hlength
  | notAConstant => exact hs List.mem_cons_self
  | noRoom | tooLarge | outside => trivial

theorem Draft.Refuses.fits (h : d.Refuses here line rest f) :
    f.error.location = some here ∧ f.error.cause.Fits (tokenize line) := by
  refine ⟨by cases h <;> rfl, ?_⟩
  cases h with
  | full => trivial
  | unread _ hline => exact (Statement.flaw_of_ofFields hline).fits
  | nested _ hline | unterminated _ hline | redefined _ hline =>
    exact Statement.arguments_subset hline List.mem_cons_self
  | blamed _ hline _ heffect =>
    exact (blames_of_effectOf heffect).fits (Statement.arguments_subset hline)

theorem Visit.Stops.fits (h : v.Stops limit f) :
    f.error.location = some v.here ∧ f.error.cause.Fits (tokenize v.line) := by
  cases h with
  | refused h => exact h.fits
  | tooDeep h =>
    refine ⟨rfl, ?_⟩
    cases Draft.advances_of_advance h with
    | expand hline hspace heffect =>
      cases Draft.does_of_effectOf heffect with
      | call => exact Statement.arguments_subset hline List.mem_cons_self

theorem ofFields_of_statement? (h : v.statement? = some s) :
    Statement.ofFields (tokenize v.line) = .ok s := by
  unfold Visit.statement? at h
  cases hfields : Statement.ofFields (tokenize v.line) with
  | error cause => simp [hfields, Except.toOption] at h
  | ok s' =>
    rw [hfields] at h
    exact congrArg Except.ok (Option.some.inj h)

theorem Visit.Leads.fits_of_forward {r : Reference} (h : v.Leads d) (hr : v.forward? = some r) :
    r.location = v.here ∧ r.name ∈ tokenize v.line := by
  obtain ⟨opcode, hline, _, _, _, hlocation⟩ := h.forward_iff.mp hr
  exact ⟨hlocation,
    Statement.arguments_subset (ofFields_of_statement? hline) List.mem_cons_self⟩

/-- The visit is that of a line of the text, whose lines are counted from `number`. -/
def Visit.Stands (v : Visit) (inMacro : Option String) (number : Nat) (text : List String) : Prop :=
  ∃ i, v.here = ⟨number + i, inMacro⟩ ∧ text.drop i = v.line :: v.rest

theorem Visit.Stands.cons (line : String) (skipped : Nat)
    (h : v.Stands inMacro (number + 1 + skipped) (text.drop skipped)) :
    v.Stands inMacro number (line :: text) := by
  obtain ⟨i, hhere, htext⟩ := h
  rw [List.drop_drop] at htext
  rw [Nat.add_assoc, Nat.add_assoc, Nat.add_comm 1] at hhere
  exact ⟨skipped + i + 1, hhere, htext⟩

theorem macro_of_expand (h : d.advance here line rest = .ok (.expand d' name body)) :
    d.macros.get? name = some body := by
  cases Draft.advances_of_advance h with
  | expand hline hspace heffect =>
    cases Draft.does_of_effectOf heffect with
    | call hfree hbody => exact hbody

theorem stands_of_mem_visits (hv : v ∈ visits limit levels inMacro number lines d) :
    v.Stands inMacro number lines ∨
      ∃ u ∈ visits limit levels inMacro number lines d, ∃ name body,
        u.before.macros.get? name = some body ∧ v.Stands (some name) 1 body := by
  fun_induction assembleLines limit levels inMacro number lines d
  case case1 =>
    rw [visits] at hv
    contradiction
  case case2 hadvance =>
    rw [visits_of_error hadvance, List.mem_singleton] at hv
    exact .inl ⟨0, by rw [hv]; rfl, by rw [hv]; rfl⟩
  case case3 number d line rest here d' skipped hadvance ih =>
    rw [visits_of_next hadvance] at hv ⊢
    rcases List.mem_cons.mp hv with rfl | hv
    · exact .inl ⟨0, rfl, rfl⟩
    · rcases ih hv with hstands | ⟨u, hu, hknown⟩
      · exact .inl (.cons line skipped hstands)
      · exact .inr ⟨u, List.mem_cons_of_mem _ hu, hknown⟩
  case case4 hadvance =>
    rw [visits_of_tooDeep hadvance, List.mem_singleton] at hv
    exact .inl ⟨0, by rw [hv]; rfl, by rw [hv]; rfl⟩
  -- the lines of a body stand in the macro that was known at the call
  case case5 name body hadvance levels d'' f hbody ih =>
    rw [visits_of_expand_error hadvance hbody] at hv ⊢
    rcases List.mem_cons.mp hv with rfl | hv
    · exact .inl ⟨0, rfl, rfl⟩
    · refine .inr ?_
      rcases ih hv with hstands | ⟨u, hu, hknown⟩
      · exact ⟨_, List.mem_cons_self, name, body, macro_of_expand hadvance, hstands⟩
      · exact ⟨u, List.mem_cons_of_mem _ hu, hknown⟩
  case case6 number d line rest here d' name body hadvance levels d'' d₃ hbody ihbody ihrest =>
    rw [visits_of_expand hadvance hbody] at hv ⊢
    rcases List.mem_cons.mp hv with rfl | hv
    · exact .inl ⟨0, rfl, rfl⟩
    · rcases List.mem_append.mp hv with hv | hv
      · refine .inr ?_
        rcases ihbody hv with hstands | ⟨u, hu, hknown⟩
        · exact ⟨_, List.mem_cons_self, name, body, macro_of_expand hadvance, hstands⟩
        · exact ⟨u, List.mem_cons_of_mem _ (List.mem_append_left _ hu), hknown⟩
      · rcases ihrest hv with hstands | ⟨u, hu, hknown⟩
        · exact .inl (.cons line 0 hstands)
        · exact .inr ⟨u, List.mem_cons_of_mem _ (List.mem_append_right _ hu), hknown⟩

/-- The line defines the macro, whose name is free, with the lines behind it as its body. -/
structure Visit.Captures (v : Visit) (name : String) (body : List String) : Prop where
  outer : v.here.inMacro = none
  fields : tokenize v.line = ["macro", name]
  body : ∃ after, captureBody v.rest = some (body, after)
  free : v.before.macros.contains name = false

/-- The pass comes to line `number` of the source, and this line defines the macro. -/
def Defines (config : Config) (lines : List String) (number : Nat) (name : String)
    (body : List String) : Prop :=
  ∃ v ∈ visitsOf config lines, v.here = ⟨number, none⟩ ∧
    lines.drop (number - 1) = v.line :: v.rest ∧ v.Captures name body

inductive IsText (config : Config) (lines : List String) : Option String → List String → Prop
  | source : IsText config lines none lines
  | body {number : Nat} {name : String} {body : List String}
      (h : Defines config lines number name body) : IsText config lines (some name) body

theorem Directive.eq_of_ofKeyword? (h : ofKeyword? name = some .beginMacro) : name = "macro" := by
  grind [ofKeyword?]

theorem Statement.eq_of_ofFields (h : ofFields fields = .ok (.beginMacro name)) :
    fields = ["macro", name] := by
  unfold ofFields at h
  split at h
  case h_3 first second =>
    unfold ofPair at h
    split at h
    case h_4 hkeyword =>
      obtain rfl := Statement.beginMacro.inj (Except.ok.inj h)
      rw [Directive.eq_of_ofKeyword? hkeyword]
    case h_8 => split at h <;> cases h
    all_goals cases h
  case h_4 first second third =>
    unfold ofTriple at h
    split at h <;> cases h
  all_goals cases h

theorem macros_apply (e : Effect) : (d.apply here s e).macros = d.macros := by
  cases e <;> rfl

theorem Visit.Leaves.macros (h : v.Leaves d) (hget : d.macros.get? name = some body) :
    v.before.macros.get? name = some body ∨ v.Captures name body := by
  cases h with
  | next h =>
    cases Draft.advances_of_advance h with
    | @capture name' body' after hline hspace houter hbody hfree =>
      have hmacros : (v.before.macros.insert name' body').get? name = some body := hget
      rw [MacroTable.get?_insert] at hmacros
      split at hmacros
      · rename_i hname
        subst hname
        obtain rfl := Option.some.inj hmacros
        exact .inr ⟨houter, Statement.eq_of_ofFields hline, ⟨after, hbody⟩, hfree⟩
      · exact .inl hmacros
    | effect =>
      rw [macros_apply] at hget
      exact .inl hget
  | expand depth h =>
    cases Draft.advances_of_advance h with
    | expand => exact .inl hget

theorem Route.captured (h : Route d vs d') (hget : d'.macros.get? name = some body) :
    d.macros.get? name = some body ∨ ∃ u ∈ vs, u.Captures name body := by
  induction h with
  | nil => exact .inl hget
  | cons step tail ih =>
    rcases ih hget with hlater | ⟨u, hu, hcaptures⟩
    · rcases step.macros hlater with hknown | hcaptures
      · exact .inl hknown
      · exact .inr ⟨_, List.mem_cons_self, hcaptures⟩
    · exact .inr ⟨u, List.mem_cons_of_mem _ hu, hcaptures⟩

theorem defines_of_get? (hv : v ∈ visitsOf config lines)
    (hget : v.before.macros.get? name = some body) :
    ∃ number, Defines config lines number name body := by
  obtain ⟨us, vs, hvisits⟩ := List.append_of_mem hv
  rcases (Route.of_visits hvisits).captured hget with hempty | ⟨u, hu, hcaptures⟩
  · simp [Draft.empty, MacroTable.get?] at hempty
  · have hmem : u ∈ visitsOf config lines := by
      rw [hvisits]
      exact List.mem_append_left _ hu
    rcases stands_of_mem_visits hmem with ⟨i, hhere, htext⟩ | ⟨_, _, _, _, _, i, hhere, _⟩
    · rw [Nat.add_comm] at hhere
      exact ⟨i + 1, u, hmem, hhere, htext, hcaptures⟩
    · have houter := hcaptures.outer
      rw [hhere] at houter
      contradiction

theorem isText_of_mem_visitsOf (hv : v ∈ visitsOf config lines) :
    ∃ text, IsText config lines v.here.inMacro text ∧ 1 ≤ v.here.line ∧
      v.here.line ≤ text.length ∧ text[v.here.line - 1]? = some v.line := by
  have hline : ∀ {inMacro text}, IsText config lines inMacro text → v.Stands inMacro 1 text →
      ∃ text, IsText config lines v.here.inMacro text ∧ 1 ≤ v.here.line ∧
        v.here.line ≤ text.length ∧ text[v.here.line - 1]? = some v.line := by
    rintro inMacro text htext ⟨i, hhere, hdrop⟩
    have hget : text[i]? = some v.line := by
      rw [← List.head?_drop, hdrop, List.head?_cons]
    have hlength := (List.getElem?_eq_some_iff.mp hget).1
    rw [hhere, Nat.add_comm]
    exact ⟨text, htext, Nat.le_add_left 1 i, hlength, hget⟩
  rcases stands_of_mem_visits hv with hstands | ⟨u, hu, name, body, hget, hstands⟩
  · exact hline .source hstands
  · obtain ⟨number, hdefines⟩ := defines_of_get? hu hget
    exact hline (.body hdefines) hstands

theorem exists_visit_of_reference {r : Reference} (hpass : pass config lines = .ok d)
    (hr : r ∈ d.references.toList) :
    ∃ v ∈ visitsOf config lines, r.location = v.here ∧ r.name ∈ tokenize v.line := by
  rw [references_of_pass hpass] at hr
  obtain ⟨v, hv, hforward⟩ := List.mem_filterMap.mp hr
  obtain ⟨_, hleads⟩ := (Trace.of_pass hpass).leads hv
  exact ⟨v, hv, hleads.fits_of_forward hforward⟩

theorem Fails.exists_visit (h : Fails config lines x) :
    (x = ⟨.spaceExhausted, none⟩ ∧ ∃ d, pass config lines = .ok d) ∨
      ∃ v ∈ visitsOf config lines, x.location = some v.here ∧ x.cause.Fits (tokenize v.line) := by
  cases h with
  | @stopped vs v f _ hvisits _ hstop =>
    refine .inr ⟨v, ?_, hstop.fits⟩
    rw [hvisits]
    exact List.mem_append_right _ List.mem_cons_self
  | unresolved hpass hr =>
    obtain ⟨v, hv, hhere, hname⟩ := exists_visit_of_reference hpass hr
    exact .inr ⟨v, hv, congrArg some hhere, hname⟩
  | tooLarge hpass hr =>
    obtain ⟨v, hv, hhere, _⟩ := exists_visit_of_reference hpass hr
    exact .inr ⟨v, hv, congrArg some hhere, trivial⟩
  | full hpass => exact .inl ⟨rfl, _, hpass⟩

theorem Fails.location_of_pass (h : Fails config lines x) (hpass : pass config lines = .ok d)
    (hcause : x.cause = .spaceExhausted) : x.location = none := by
  cases h with
  | stopped hfailure => cases hpass.symm.trans hfailure
  | unresolved | tooLarge => cases hcause
  | full => rfl

/-- An error without a location is the lack of space found after the pass. Every other error names a
line of the source, or of the body of a macro that the source defines, and is about the fields of
this line. -/
theorem errors_located (config : Config) (lines : List String) (x : Error)
    (h : (assembleSource config lines).result = .error x) :
    (x.location = none ↔ x.cause = .spaceExhausted ∧ ∃ d, pass config lines = .ok d) ∧
      ∀ l, x.location = some l → ∃ text line, IsText config lines l.inMacro text ∧
        1 ≤ l.line ∧ l.line ≤ text.length ∧ text[l.line - 1]? = some line ∧
        x.cause.Fits (tokenize line) := by
  have hfails := fails_of_assembleSource h
  rcases hfails.exists_visit with ⟨rfl, hpass⟩ | ⟨v, hv, hlocation, hfits⟩
  · refine ⟨⟨fun _ => ⟨rfl, hpass⟩, fun _ => rfl⟩, ?_⟩
    intro l hl
    contradiction
  · constructor
    · constructor
      · intro hnone
        rw [hlocation] at hnone
        contradiction
      · rintro ⟨hcause, d, hpass⟩
        exact hfails.location_of_pass hpass hcause
    · intro l hl
      obtain rfl := Option.some.inj (hl.symm.trans hlocation)
      obtain ⟨text, htext, hpos, hle, hline⟩ := isText_of_mem_visitsOf hv
      exact ⟨text, v.line, htext, hpos, hle, hline, hfits⟩

/-- The lines of the body are counted from its start, and the macro is called further down. -/
theorem errors_located_halt : ∃ text line,
    (assembleSource .least ["macro halt", "nop", "hlt $1", ".end", "", "halt"]).result =
      .error ⟨.unknownCommand "hlt", some ⟨2, some "halt"⟩⟩ ∧
    IsText .least ["macro halt", "nop", "hlt $1", ".end", "", "halt"] (some "halt") text ∧
      text[1]? = some line ∧ "hlt" ∈ tokenize line := by
  have h : (assembleSource .least ["macro halt", "nop", "hlt $1", ".end", "", "halt"]).result =
      .error ⟨.unknownCommand "hlt", some ⟨2, some "halt"⟩⟩ := by cbv
  obtain ⟨text, line, htext, _, _, hline, hfits⟩ := (errors_located _ _ _ h).2 _ rfl
  exact ⟨text, line, h, htext, hline, hfits⟩

end WordMachine.Assembly
