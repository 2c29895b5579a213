import WordMachine.Proofs.Assembly.Resolution

/-!
# Assemblies that fail

`Blames` lists what can be said against a statement, as `Does` lists what it can do, and `Refuses`
why a line is no further advance. A pass that fails ends at one visit, and the visits before it form
a path that leads there. After the pass only a reference or the lack of space can be at fault.
-/

namespace WordMachine.Assembly

variable {limit levels number skipped : Nat} {inMacro : Option String} {line name token : String}
  {fields lines rest body : List String} {here : Location} {d d' d₁ : Draft} {v : Visit}
  {us vs : List Visit} {s : Statement} {e : Effect} {w : Word} {cause : Cause} {f : Failure}
  {config : Config}

namespace Statement

def arguments : Statement → List String
  | blank => []
  | single field => [field]
  | beginMacro name | dataCell name | label name => [name]
  | allocate count => [count]
  | instruction _ operand => [operand]
  | set target value => [target, value]
  | constant name value => [name, value]

theorem arguments_ofPair {first second : String} (h : ofPair first second = .ok s) :
    s.arguments = [second] := by
  unfold ofPair at h
  split at h
  case h_1 | h_2 | h_3 | h_4 =>
    obtain rfl := Except.ok.inj h
    rfl
  case h_5 | h_6 | h_7 => contradiction
  case h_8 =>
    split at h
    · obtain rfl := Except.ok.inj h
      rfl
    · contradiction

theorem arguments_ofTriple {first second third : String}
    (h : ofTriple first second third = .ok s) : s.arguments = [second, third] := by
  unfold ofTriple at h
  split at h
  case h_1 | h_2 =>
    obtain rfl := Except.ok.inj h
    rfl
  case h_3 => contradiction

theorem arguments_subset (h : ofFields fields = .ok s) : s.arguments ⊆ fields := by
  unfold ofFields at h
  split at h
  case h_1 =>
    obtain rfl := Except.ok.inj h
    exact List.nil_subset _
  case h_2 field =>
    obtain rfl := Except.ok.inj h
    exact List.Subset.refl _
  case h_3 first second =>
    rw [arguments_ofPair h]
    exact List.subset_cons_self _ _
  case h_4 first second third =>
    rw [arguments_ofTriple h]
    exact List.subset_cons_self _ _
  case h_5 => contradiction

inductive Flaw (fields : List String) : Cause → Prop
  | strayEnd : Flaw fields .strayEnd
  | missingOperand {name : String} (h : name ∈ fields) : Flaw fields (.missingOperand name)
  | unknownCommand {name : String} (h : name ∈ fields) : Flaw fields (.unknownCommand name)
  | tooManyFields (h : 3 < fields.length) : Flaw fields (.tooManyFields fields.length)

theorem flaw_of_ofPair {first second : String} (h : ofPair first second = .error cause) :
    Flaw [first, second] cause := by
  unfold ofPair at h
  split at h
  case h_1 | h_2 | h_3 | h_4 => contradiction
  case h_5 =>
    obtain rfl := Except.error.inj h
    exact .strayEnd
  case h_6 | h_7 =>
    obtain rfl := Except.error.inj h
    exact .missingOperand List.mem_cons_self
  case h_8 =>
    split at h
    · contradiction
    · obtain rfl := Except.error.inj h
      exact .unknownCommand List.mem_cons_self

theorem flaw_of_ofTriple {first second third : String}
    (h : ofTriple first second third = .error cause) : Flaw [first, second, third] cause := by
  unfold ofTriple at h
  split at h
  case h_1 | h_2 => contradiction
  case h_3 =>
    obtain rfl := Except.error.inj h
    exact .unknownCommand List.mem_cons_self

theorem flaw_of_ofFields (h : ofFields fields = .error cause) : Flaw fields cause := by
  unfold ofFields at h
  split at h
  case h_1 | h_2 => contradiction
  case h_3 => exact flaw_of_ofPair h
  case h_4 => exact flaw_of_ofTriple h
  case h_5 hnil hone htwo hthree =>
    obtain rfl := Except.error.inj h
    refine .tooManyFields ?_
    rcases fields with _ | ⟨a, _ | ⟨b, _ | ⟨c, _ | ⟨_, fields⟩⟩⟩⟩
    · exact absurd rfl hnil
    · exact absurd rfl (hone a)
    · exact absurd rfl (htwo a b)
    · exact absurd rfl (hthree a b c)
    · simp

theorem flaw_misuse (field : String) : Flaw [field] (misuse field) := by
  unfold misuse
  split
  · exact .strayEnd
  · exact .missingOperand List.mem_cons_self
  · split
    · exact .missingOperand List.mem_cons_self
    · exact .unknownCommand List.mem_cons_self

end Statement

theorem cause_of_number? (h : number? token = .error cause) : cause = .malformedNumber token := by
  unfold number? at h
  split at h
  · split at h
    · contradiction
    · exact (Except.error.inj h).symm
  · contradiction

namespace Draft

inductive Blames (d : Draft) : Statement → Cause → Prop
  | malformed {s : Statement} {token : String} (hs : token ∈ s.arguments)
      (hnumber : number? token = .error (.malformedNumber token)) :
      Blames d s (.malformedNumber token)
  | undefined {s : Statement} {token : String} (hs : token ∈ s.arguments)
      (hfree : d.symbols.get? token = none) : Blames d s (.undefinedSymbol token)
  | taken {s : Statement} {name : String} (hs : name ∈ s.arguments)
      (htaken : d.symbols.contains name = true) : Blames d s (.duplicateDefinition name)
  | misused {field : String} {cause : Cause} (hsymbol : d.symbols.get? field = none)
      (hbody : d.macros.get? field = none) (hflaw : Statement.Flaw [field] cause) :
      Blames d (.single field) cause
  | notAConstant {count : String} {s : Symbol} (hs : d.symbols.get? count = some s)
      (hkind : s.kind ≠ .constant) : Blames d (.allocate count) (.notAConstant count)
  | noRoom {count : String} {n : Nat} (hcount : d.countOf count = .ok n) (hroom : d.data < n) :
      Blames d (.allocate count) .spaceExhausted
  | tooLarge {opcode : Opcode} {token : String} {w : Word} (hw : operandMask < w) :
      Blames d (.instruction opcode token) (.operandTooLarge w)
  | outside {target value : String} {w : Word} (htarget : d.valueOf target = .ok w)
      (hw : d.size.words ≤ w.toNat) : Blames d (.set target value) (.addressOutOfRange w)

theorem blames_of_number? (hs : token ∈ s.arguments) (h : number? token = .error cause) :
    d.Blames s cause := by
  obtain rfl := cause_of_number? h
  exact .malformed hs h

theorem blames_of_valueOf (hs : token ∈ s.arguments) (h : d.valueOf token = .error cause) :
    d.Blames s cause := by
  unfold valueOf at h
  split at h
  · rename_i hnumber
    obtain rfl := Except.error.inj h
    exact blames_of_number? hs hnumber
  · contradiction
  · split at h
    · contradiction
    · rename_i hfree
      obtain rfl := Except.error.inj h
      exact .undefined hs hfree

theorem blames_of_countOf {count : String} (h : d.countOf count = .error cause) :
    d.Blames (.allocate count) cause := by
  unfold countOf at h
  split at h
  · rename_i hnumber
    obtain rfl := Except.error.inj h
    exact blames_of_number? List.mem_cons_self hnumber
  · contradiction
  · split at h
    · contradiction
    · rename_i s hkind hs
      obtain rfl := Except.error.inj h
      refine .notAConstant hs ?_
      intro hconstant
      obtain ⟨name, kind, value⟩ := s
      obtain rfl : kind = .constant := hconstant
      exact hkind _ _ rfl
    · rename_i hfree
      obtain rfl := Except.error.inj h
      exact .undefined List.mem_cons_self hfree

theorem operandOf_error (h : operandOf w = .error cause) :
    operandMask < w ∧ cause = .operandTooLarge w := by
  unfold operandOf at h
  split at h
  · rename_i hw
    exact ⟨hw, (Except.error.inj h).symm⟩
  · contradiction

theorem blames_of_operandOf {α : Type} {g : Word → α} {opcode : Opcode}
    (h : (operandOf w).map g = .error cause) : d.Blames (.instruction opcode token) cause := by
  obtain ⟨hw, rfl⟩ := operandOf_error (error_of_map h)
  exact .tooLarge hw

theorem blames_of_unlessDefined (hs : name ∈ s.arguments)
    (h : d.unlessDefined name e = .error cause) : d.Blames s cause := by
  unfold unlessDefined at h
  split at h
  · rename_i htaken
    obtain rfl := Except.error.inj h
    exact .taken hs htaken
  · contradiction

theorem blames_of_singleEffect {field : String} (h : d.singleEffect field = .error cause) :
    d.Blames (.single field) cause := by
  unfold singleEffect at h
  split at h
  · rename_i hnumber
    obtain rfl := Except.error.inj h
    exact blames_of_number? List.mem_cons_self hnumber
  · cases h
  · split at h
    · cases h
    · split at h
      · cases h
      · rename_i hsymbol
        split at h
        · cases h
        · rename_i hbody
          obtain rfl := Except.error.inj h
          exact .misused hsymbol hbody (Statement.flaw_misuse field)

theorem blames_of_instructionEffect {opcode : Opcode}
    (h : d.instructionEffect opcode token = .error cause) :
    d.Blames (.instruction opcode token) cause := by
  unfold instructionEffect at h
  split at h
  · rename_i hnumber
    obtain rfl := Except.error.inj h
    exact blames_of_number? List.mem_cons_self hnumber
  · exact blames_of_operandOf h
  · split at h
    · exact blames_of_operandOf h
    · cases h

theorem blames_of_setEffect {target value : String} (h : d.setEffect target value = .error cause) :
    d.Blames (.set target value) cause := by
  unfold setEffect at h
  split at h
  · rename_i htarget
    obtain rfl := Except.error.inj h
    exact blames_of_valueOf List.mem_cons_self htarget
  · rename_i htarget
    split at h
    · rename_i houtside
      obtain rfl := Except.error.inj h
      exact .outside htarget houtside
    · exact blames_of_valueOf (List.mem_cons_of_mem _ List.mem_cons_self) (error_of_map h)

theorem blames_of_allocateEffect {count : String} (h : d.allocateEffect count = .error cause) :
    d.Blames (.allocate count) cause := by
  unfold allocateEffect at h
  split at h
  · rename_i hcount
    obtain rfl := Except.error.inj h
    exact blames_of_countOf hcount
  · rename_i hcount
    split at h
    · rename_i hroom
      obtain rfl := Except.error.inj h
      exact .noRoom hcount hroom
    · contradiction

theorem blames_of_effectOf (h : d.effectOf s = .error cause) : d.Blames s cause := by
  cases s with
  | blank | beginMacro name => contradiction
  | single field => exact blames_of_singleEffect h
  | dataCell name | label name => exact blames_of_unlessDefined List.mem_cons_self h
  | allocate count => exact blames_of_allocateEffect h
  | instruction opcode operand => exact blames_of_instructionEffect h
  | set target value => exact blames_of_setEffect h
  | constant name value =>
    simp only [effectOf] at h
    split at h
    · rename_i hvalue
      obtain rfl := Except.error.inj h
      exact blames_of_valueOf (List.mem_cons_of_mem _ List.mem_cons_self) hvalue
    · exact blames_of_unlessDefined List.mem_cons_self h

inductive Refuses (d : Draft) (here : Location) (line : String) (rest : List String) :
    Failure → Prop
  | full (hfull : d.isFull = true) : Refuses d here line rest (d.failure here .spaceExhausted)
  | unread {cause : Cause} (hspace : d.isFull = false)
      (hline : Statement.ofFields (tokenize line) = .error cause) :
      Refuses d here line rest (d.failure here cause)
  | nested {name : String} (hspace : d.isFull = false)
      (hline : Statement.ofFields (tokenize line) = .ok (.beginMacro name))
      (hinner : here.inMacro.isSome = true) :
      Refuses d here line rest (d.failure here (.nestedMacro name))
  | unterminated {name : String} (hspace : d.isFull = false)
      (hline : Statement.ofFields (tokenize line) = .ok (.beginMacro name))
      (houter : here.inMacro = none) (hbody : captureBody rest = none) :
      Refuses d here line rest (d.failure here (.unterminatedMacro name))
  | redefined {name : String} {body after : List String} (hspace : d.isFull = false)
      (hline : Statement.ofFields (tokenize line) = .ok (.beginMacro name))
      (houter : here.inMacro = none) (hbody : captureBody rest = some (body, after))
      (htaken : d.macros.contains name = true) :
      Refuses d here line rest
        ((d.note (.captured name body.length)).failure here (.duplicateDefinition name))
  | blamed {s : Statement} {cause : Cause} (hspace : d.isFull = false)
      (hline : Statement.ofFields (tokenize line) = .ok s) (hs : ∀ name, s ≠ .beginMacro name)
      (heffect : d.effectOf s = .error cause) : Refuses d here line rest (d.failure here cause)

theorem refuses_of_capture (hspace : d.isFull = false)
    (hline : Statement.ofFields (tokenize line) = .ok (.beginMacro name))
    (h : d.capture here name rest = .error f) : d.Refuses here line rest f := by
  unfold capture at h
  split at h
  · rename_i hinner
    obtain rfl := Except.error.inj h
    exact .nested hspace hline hinner
  · rename_i houter
    have htop : here.inMacro = none := by simpa using houter
    split at h
    · rename_i hbody
      obtain rfl := Except.error.inj h
      exact .unterminated hspace hline htop hbody
    · rename_i body after hbody
      cases hname : (d.note (.captured name body.length)).macros.contains name with
      | true =>
        simp only [MacroTable.define_of_taken body hname] at h
        obtain rfl := Except.error.inj h
        exact .redefined hspace hline htop hbody hname
      | false => simp [MacroTable.define_of_free body hname] at h

theorem refuses_of_advance (h : d.advance here line rest = .error f) :
    d.Refuses here line rest f := by
  unfold advance at h
  split at h
  · rename_i hfull
    obtain rfl := Except.error.inj h
    exact .full hfull
  · rename_i hfull
    have hspace : d.isFull = false := by simpa using hfull
    split at h
    · rename_i hline
      obtain rfl := Except.error.inj h
      exact .unread hspace hline
    · rename_i s hline
      unfold obey at h
      split at h
      · exact refuses_of_capture hspace hline h
      · rename_i hs
        split at h
        · rename_i heffect
          obtain rfl := Except.error.inj h
          exact .blamed hspace hline hs heffect
        · cases h
        · cases h

theorem advance_of_refuses (h : d.Refuses here line rest f) :
    d.advance here line rest = .error f := by
  unfold advance
  cases h with
  | full hfull => rw [if_pos hfull]
  | unread hspace hline => simp [hspace, hline]
  | nested hspace hline hinner => simp [hspace, hline, obey, capture, hinner]
  | unterminated hspace hline houter hbody => simp [hspace, hline, obey, capture, houter, hbody]
  | redefined hspace hline houter hbody htaken =>
    have htaken' : ∀ entry, (d.note entry).macros.contains _ = true := fun _ => htaken
    simp [hspace, hline, obey, capture, houter, hbody, MacroTable.define_of_taken _ (htaken' _)]
  | blamed hspace hline hs heffect =>
    simp only [hspace, hline, Bool.false_eq_true, if_false, obey_of_ne hs, heffect]

end Draft

inductive Visit.Leaves (v : Visit) : Draft → Prop
  | next {d : Draft} {skipped : Nat}
      (h : v.before.advance v.here v.line v.rest = .ok (.next d skipped)) : v.Leaves d
  | expand {d : Draft} {name : String} {body : List String} (depth : Nat)
      (h : v.before.advance v.here v.line v.rest = .ok (.expand d name body)) :
      v.Leaves (d.note (.expanding name depth))

theorem leaves_of_advance (h : d.advance here line rest = .ok (.next d' skipped)) :
    (Visit.mk here line rest d).Leaves d' :=
  .next h

theorem leaves_of_expand (h : d.advance here line rest = .ok (.expand d₁ name body))
    (depth : Nat) : (Visit.mk here line rest d).Leaves (d₁.note (.expanding name depth)) :=
  .expand depth h

theorem Visit.Leaves.leads (h : v.Leaves d) : v.Leads d := by
  cases h with
  | next h => exact leads_of_advance h
  | expand depth h => exact leads_of_expand h _

/-- A trace that also keeps account of the macros and the journal. -/
inductive Route : Draft → List Visit → Draft → Prop
  | nil {d : Draft} : Route d [] d
  | cons {v : Visit} {vs : List Visit} {d d' : Draft} (step : v.Leaves d) (tail : Route d vs d') :
      Route v.before (v :: vs) d'

namespace Route

theorem trace (h : Route d vs d') : Trace d vs d' := by
  induction h with
  | nil => exact .nil
  | cons step tail ih => exact .cons step.leads ih

theorem append (h : Route d us d₁) (h' : Route d₁ vs d') : Route d (us ++ vs) d' := by
  induction h with
  | nil => exact h'
  | cons step tail ih => exact .cons step (ih h')

theorem of_prefix (h : Route d (us ++ v :: vs) d') : Route d us v.before := by
  induction us generalizing d with
  | nil =>
    cases h with
    | cons step tail => exact .nil
  | cons u us ih =>
    cases h with
    | cons step tail => exact .cons step (ih tail)

theorem of_passes (h : Passes limit levels inMacro number lines d vs d') : Route d vs d' := by
  induction h with
  | done => exact .nil
  | next h tail ih => exact .cons (leaves_of_advance h) ih
  | expand h inner tail ihinner ihtail => exact .cons (leaves_of_expand h _) (ihinner.append ihtail)

end Route

/-- The pass ends at the visit: its line is refused, or its call has no level left. -/
inductive Visit.Stops (limit : Nat) (v : Visit) : Failure → Prop
  | refused {f : Failure} (h : v.before.Refuses v.here v.line v.rest f) : v.Stops limit f
  | tooDeep {d : Draft} {name : String} {body : List String}
      (h : v.before.advance v.here v.line v.rest = .ok (.expand d name body)) :
      v.Stops limit (d.failure v.here (.macroDepthExceeded name limit))

theorem exists_stop (h : assembleLines limit levels inMacro number lines d = .error f) :
    ∃ vs v, visits limit levels inMacro number lines d = vs ++ [v] ∧ Route d vs v.before ∧
      v.Stops limit f := by
  fun_induction assembleLines limit levels inMacro number lines d
  case case1 => contradiction
  case case2 f' hadvance =>
    obtain rfl := Except.error.inj h
    rw [visits_of_error hadvance]
    exact ⟨[], _, rfl, .nil, .refused (Draft.refuses_of_advance hadvance)⟩
  case case3 hadvance ih =>
    obtain ⟨vs, v, hvisits, hroute, hstop⟩ := ih h
    rw [visits_of_next hadvance, hvisits]
    exact ⟨_ :: vs, v, rfl, .cons (leaves_of_advance hadvance) hroute, hstop⟩
  case case4 hadvance =>
    obtain rfl := Except.error.inj h
    rw [visits_of_tooDeep hadvance]
    exact ⟨[], _, rfl, .nil, .tooDeep hadvance⟩
  case case5 hadvance levels d'' f' hbody ih =>
    obtain rfl := Except.error.inj h
    obtain ⟨vs, v, hvisits, hroute, hstop⟩ := ih hbody
    rw [visits_of_expand_error hadvance hbody, hvisits]
    exact ⟨_ :: vs, v, rfl, .cons (leaves_of_expand hadvance _) hroute, hstop⟩
  case case6 hadvance levels d'' d₃ hbody ihbody ihrest =>
    obtain ⟨vs, v, hvisits, hroute, hstop⟩ := ihrest h
    have hinner := Route.of_passes (passes_of_assembleLines hbody)
    rw [visits_of_expand hadvance hbody, hvisits]
    refine ⟨_, v, ?_, .cons (leaves_of_expand hadvance _) (hinner.append hroute), hstop⟩
    rw [List.cons_append, List.append_assoc]

theorem Route.of_visits (h : visits limit levels inMacro number lines d = us ++ v :: vs) :
    Route d us v.before := by
  cases hpass : assembleLines limit levels inMacro number lines d with
  | ok d' =>
    have hroute := Route.of_passes (passes_of_assembleLines hpass)
    rw [h] at hroute
    exact hroute.of_prefix
  | error f =>
    obtain ⟨ws, w, hvisits, hroute, -⟩ := exists_stop hpass
    rw [h] at hvisits
    -- either the visit is the last one, or it stands before the last one
    rcases List.eq_nil_or_concat vs with rfl | ⟨vs', u, rfl⟩
    · obtain ⟨rfl, hlast⟩ := List.append_inj' hvisits rfl
      obtain rfl := (List.cons.inj hlast).1
      exact hroute
    · rw [List.concat_eq_append, ← List.cons_append, ← List.append_assoc] at hvisits
      obtain ⟨rfl, -⟩ := List.append_inj' hvisits rfl
      exact hroute.of_prefix

namespace Draft

theorem failure_of_resolve {r : Reference} (h : d.resolve r = .error f) :
    f.journal = d.journal ∧ (f.error = ⟨.unresolvedReference r.name, some r.location⟩ ∨
      ∃ w, f.error = ⟨.operandTooLarge w, some r.location⟩) := by
  unfold resolve at h
  split at h
  · split at h
    · rename_i cause hoperand
      obtain rfl := Except.error.inj h
      obtain ⟨_, rfl⟩ := operandOf_error hoperand
      exact ⟨rfl, .inr ⟨_, rfl⟩⟩
    · contradiction
  · obtain rfl := Except.error.inj h
    exact ⟨rfl, .inl rfl⟩

theorem failure_of_resolveAll {rs : List Reference} (h : resolveAll rs d = .error f) :
    ∃ r ∈ rs, f.error = ⟨.unresolvedReference r.name, some r.location⟩ ∨
      ∃ w, f.error = ⟨.operandTooLarge w, some r.location⟩ := by
  induction rs generalizing d with
  | nil => contradiction
  | cons r rs ih =>
    rw [resolveAll] at h
    split at h
    · rename_i hr
      obtain rfl := Except.error.inj h
      exact ⟨r, List.mem_cons_self, (failure_of_resolve hr).2⟩
    · obtain ⟨q, hq, hfailure⟩ := ih h
      exact ⟨q, List.mem_cons_of_mem _ hq, hfailure⟩

end Draft

/-- The pass ends at a visit, or a reference cannot be resolved, or no space is left at the end. -/
inductive Fails (config : Config) (lines : List String) : Error → Prop
  | stopped {vs : List Visit} {v : Visit} {f : Failure} (hpass : pass config lines = .error f)
      (hvisits : visitsOf config lines = vs ++ [v])
      (hroute : Route (Draft.empty config.size) vs v.before)
      (hstop : v.Stops config.maxMacroDepth f) : Fails config lines f.error
  | unresolved {d : Draft} {r : Reference} (hpass : pass config lines = .ok d)
      (hr : r ∈ d.references.toList) :
      Fails config lines ⟨.unresolvedReference r.name, some r.location⟩
  | tooLarge {d : Draft} {r : Reference} {w : Word} (hpass : pass config lines = .ok d)
      (hr : r ∈ d.references.toList) : Fails config lines ⟨.operandTooLarge w, some r.location⟩
  | full {d : Draft} (hpass : pass config lines = .ok d) (hfull : d.data ≤ d.used) :
      Fails config lines ⟨.spaceExhausted, none⟩

theorem fails_of_finish {x : Error} (hpass : pass config lines = .ok d)
    (h : d.finish.result = .error x) : Fails config lines x := by
  unfold Draft.finish at h
  split at h
  · rename_i f hresolve
    obtain rfl := Except.error.inj h
    obtain ⟨r, hr, hunresolved | ⟨w, hlarge⟩⟩ := Draft.failure_of_resolveAll hresolve
    · rw [hunresolved]
      exact .unresolved hpass hr
    · rw [hlarge]
      exact .tooLarge hpass hr
  · rename_i d' hresolve
    obtain ⟨_, hused, hdata, _⟩ := Draft.resolveAll_frame hresolve
    split at h
    · rename_i hfull
      rw [Draft.isFull, hused, hdata] at hfull
      obtain rfl := Except.error.inj h
      exact .full hpass (of_decide_eq_true hfull)
    · contradiction

theorem fails_of_assembleSource {x : Error} (h : (assembleSource config lines).result = .error x) :
    Fails config lines x := by
  rw [assembleSource_eq] at h
  split at h
  · rename_i f hpass
    obtain rfl := Except.error.inj h
    obtain ⟨vs, v, hvisits, hroute, hstop⟩ := exists_stop hpass
    exact .stopped hpass hvisits hroute hstop
  · rename_i d hpass
    exact fails_of_finish hpass h

end WordMachine.Assembly
