import WordMachine.Proofs.Assembly.Resolution
import WordMachine.Proofs.Text.Readers

/-!
# Operands that are names

A name may stand in an operand before or behind its definition. Where the assembly succeeds, the
word has the value of the symbol in either case; where the pass succeeds and the assembly does not,
the first reference that is not bound tells why, or else the lack of space.
-/

namespace WordMachine.Assembly

variable {config : Config} {lines : List String} {d d' : Draft} {v : Visit} {vs : List Visit}
  {name : String} {opcode : Opcode} {r : Reference} {s : Symbol} {p : Program}

theorem Visit.Leads.instruction (h : v.Leads d)
    (hline : v.statement? = some (.instruction opcode name)) (hname : number? name = .ok none) :
    (∃ s, v.before.symbols.get? name = some s ∧ s.value ≤ operandMask ∧ v.forward? = none ∧
        v.emission? = some (v.before.used, Instruction.encode ⟨opcode, s.value⟩)) ∨
      v.before.symbols.get? name = none ∧ v.forward? = some ⟨name, v.before.used, v.here⟩ ∧
        v.emission? = some (v.before.used, Instruction.encode ⟨opcode, 0⟩) := by
  obtain ⟨t, e, ht, hdoes, heffect, _⟩ := h.cases
  obtain rfl := Option.some.inj (ht.symm.trans hline)
  cases hdoes with
  | number hnumber hw =>
    rw [hname] at hnumber
    cases hnumber
  | @known _ _ s _ hs hvalue =>
    refine .inl ⟨s, hs, hvalue, ?_, ?_⟩
    · rw [forward?, heffect]
    · rw [emission?, word?, heffect]
      rfl
  | forward _ hs =>
    refine .inr ⟨hs, ?_, ?_⟩
    · rw [forward?, heffect]
    · rw [emission?, word?, heffect]
      rfl

theorem Visit.Leads.forward_iff (h : v.Leads d) : v.forward? = some r ↔
    ∃ opcode, v.statement? = some (.instruction opcode r.name) ∧ r.name.toList.head? ≠ some '$' ∧
      v.before.symbols.get? r.name = none ∧ r.address = v.before.used ∧ r.location = v.here := by
  constructor
  · intro hforward
    obtain ⟨t, e, ht, hdoes, heffect, _⟩ := h.cases
    rw [forward?, heffect] at hforward
    cases hdoes with
    | @forward opcode name hname hs =>
      obtain rfl := Option.some.inj hforward
      exact ⟨opcode, ht, number?_eq_none_iff.mp hname, hs, rfl, rfl⟩
    | _ => simp at hforward
  · rintro ⟨opcode, hline, hname, hs, haddress, hlocation⟩
    obtain ⟨name, address, location⟩ := r
    obtain rfl : address = v.before.used := haddress
    obtain rfl : location = v.here := hlocation
    rcases h.instruction hline (number?_eq_none_iff.mpr hname) with
      ⟨s, hget, _⟩ | ⟨_, hforward, _⟩
    · rw [hs] at hget
      cases hget
    · exact hforward

theorem operand_of_assembleSource (h : (assembleSource config lines).result = .ok p)
    (hv : v ∈ visitsOf config lines) (hline : v.statement? = some (.instruction opcode name))
    (hname : name.toList.head? ≠ some '$') :
    (∃ w, v.emission? = some (v.before.used, w)) ∧
      ∃ s, p.symbols.get? name = some s ∧ s.value ≤ operandMask ∧
        (v.before.symbols.get? name = none → s.kind = .label) ∧
        ((∀ u ∈ visitsOf config lines, ∀ w, u.stored? ≠ some (v.before.used, w)) →
          p.image.words[v.before.used]? = some (Instruction.encode ⟨opcode, s.value⟩)) := by
  obtain ⟨d, d', hpass, hresolve, _, rfl⟩ := assembleSource_ok h
  obtain ⟨hsymbols, _, _, _, _⟩ := Draft.resolveAll_frame hresolve
  have trace := Trace.of_pass hpass
  obtain ⟨d₁, step⟩ := trace.leads hv
  rcases step.instruction hline (number?_eq_none_iff.mpr hname) with
    ⟨s, hget, hvalue, hforward, hw⟩ | ⟨hget, hforward, hw⟩
  · refine ⟨⟨_, hw⟩, s, ?_, hvalue, ?_, ?_⟩
    · rw [Draft.program, hsymbols]
      exact trace.get?_of_visit (Draft.sound_empty config.size) hv hget
    · intro hnone
      rw [hget] at hnone
      cases hnone
    · intro hstore
      exact (code_of_visit h hv hw hstore).1 hforward
  · have hr : ⟨name, v.before.used, v.here⟩ ∈ d.references.toList := by
      rw [references_of_pass hpass]
      exact List.mem_filterMap.mpr ⟨v, hv, hforward⟩
    obtain ⟨s, hs, hkind, hvalue⟩ := Draft.bound_of_resolveAll hresolve _ hr
    refine ⟨⟨_, hw⟩, s, ?_, hvalue, fun _ => hkind, ?_⟩
    · rw [Draft.program, hsymbols]
      exact hs
    · intro hstore
      obtain ⟨s', hs', _, _, hcell⟩ := (code_of_visit h hv hw hstore).2 _ hforward
      rw [Draft.program, hsymbols] at hs'
      obtain rfl : s' = s := Option.some.inj (hs'.symm.trans hs)
      rw [hcell, patch_encode opcode hvalue]

theorem unbound {t : SymbolTable} (h : ¬r.Bound t) :
    (∀ s, t.get? r.name = some s → s.kind ≠ .label) ∨
      ∃ s, t.get? r.name = some s ∧ s.kind = .label ∧ operandMask < s.value := by
  by_cases hlabel : ∃ s, t.get? r.name = some s ∧ s.kind = .label
  · obtain ⟨s, hget, hkind⟩ := hlabel
    refine .inr ⟨s, hget, hkind, ?_⟩
    by_contra hvalue
    exact h ⟨s, hget, hkind, UInt16.not_lt.mp hvalue⟩
  · refine .inl ?_
    intro s hget hkind
    exact hlabel ⟨s, hget, hkind⟩

theorem result_of_bound (hpass : pass config lines = .ok d)
    (hbound : ∀ r ∈ (visitsOf config lines).filterMap Visit.forward?, r.Bound d.symbols)
    (hspace : d.used < d.data) : ∃ p, (assembleSource config lines).result = .ok p ∧
      p.symbols = d.symbols ∧ p.codeWords = d.used := by
  rw [← references_of_pass hpass] at hbound
  obtain ⟨d', hresolve⟩ := Draft.resolveAll_of_bound hbound
  obtain ⟨hsymbols, hused, hdata, _, _⟩ := Draft.resolveAll_frame hresolve
  have hfull : d'.isFull = false := by simp [Draft.isFull, hused, hdata, hspace]
  refine ⟨d'.program, ?_, hsymbols, hused⟩
  rw [assembleSource_eq, hpass]
  simp [Draft.finish, hresolve, hfull]

theorem result_of_full (hpass : pass config lines = .ok d)
    (hbound : ∀ r ∈ (visitsOf config lines).filterMap Visit.forward?, r.Bound d.symbols)
    (hspace : d.data ≤ d.used) :
    (assembleSource config lines).result = .error ⟨.spaceExhausted, none⟩ := by
  rw [← references_of_pass hpass] at hbound
  obtain ⟨d', hresolve⟩ := Draft.resolveAll_of_bound hbound
  obtain ⟨_, hused, hdata, _, _⟩ := Draft.resolveAll_frame hresolve
  have hfull : d'.isFull = true := by simp [Draft.isFull, hused, hdata, hspace]
  rw [assembleSource_eq, hpass]
  simp [Draft.finish, hresolve, hfull]

theorem result_of_error {before after : List Reference} {cause : Cause}
    (hpass : pass config lines = .ok d)
    (hsplit : (visitsOf config lines).filterMap Visit.forward? = before ++ r :: after)
    (hbound : ∀ q ∈ before, q.Bound d.symbols)
    (hr : ∀ d' : Draft, d'.symbols = d.symbols →
      d'.resolve r = .error (d'.failure r.location cause)) :
    (assembleSource config lines).result = .error ⟨cause, some r.location⟩ := by
  rw [← references_of_pass hpass] at hsplit
  obtain ⟨journal, hresolve⟩ := Draft.resolveAll_of_error after hbound hr
  rw [assembleSource_eq, hpass]
  simp [Draft.finish, hsplit, hresolve]

/-- An operand that is a name has the final value of the name; and the first reference in the order
of the words that is not bound to a label within an operand is what an assembly fails for. -/
theorem operands_resolved (config : Config) (lines : List String) :
    (∀ p, (assembleSource config lines).result = .ok p →
      ∀ v ∈ visitsOf config lines, ∀ opcode name,
        v.statement? = some (.instruction opcode name) → name.toList.head? ≠ some '$' →
        (∃ w, v.emission? = some (v.before.used, w)) ∧
          ∃ s, p.symbols.get? name = some s ∧ s.value ≤ operandMask ∧
            (v.before.symbols.get? name = none → s.kind = .label) ∧
            ((∀ u ∈ visitsOf config lines, ∀ w, u.stored? ≠ some (v.before.used, w)) →
              p.image.words[v.before.used]? = some (Instruction.encode ⟨opcode, s.value⟩))) ∧
    ∀ d, pass config lines = .ok d →
      (∀ v ∈ visitsOf config lines, ∀ r, v.forward? = some r ↔
        ∃ opcode, v.statement? = some (.instruction opcode r.name) ∧
          r.name.toList.head? ≠ some '$' ∧ v.before.symbols.get? r.name = none ∧
          r.address = v.before.used ∧ r.location = v.here) ∧
      ((∀ r ∈ (visitsOf config lines).filterMap Visit.forward?, r.Bound d.symbols) →
        if d.used < d.data then
          ∃ p, (assembleSource config lines).result = .ok p ∧ p.symbols = d.symbols ∧
            p.codeWords = d.used
        else (assembleSource config lines).result = .error ⟨.spaceExhausted, none⟩) ∧
      ∀ before r after,
        (visitsOf config lines).filterMap Visit.forward? = before ++ r :: after →
        (∀ q ∈ before, q.Bound d.symbols) → ¬r.Bound d.symbols →
        ((∀ s, d.symbols.get? r.name = some s → s.kind ≠ .label) ∧
          (assembleSource config lines).result =
            .error ⟨.unresolvedReference r.name, some r.location⟩) ∨
        ∃ s, d.symbols.get? r.name = some s ∧ s.kind = .label ∧ operandMask < s.value ∧
          (assembleSource config lines).result =
            .error ⟨.operandTooLarge s.value, some r.location⟩ := by
  refine ⟨fun p h v hv opcode name hline hname => operand_of_assembleSource h hv hline hname, ?_⟩
  intro d hpass
  refine ⟨?_, ?_, ?_⟩
  · intro v hv r
    obtain ⟨d₁, step⟩ := (Trace.of_pass hpass).leads hv
    exact step.forward_iff
  · intro hbound
    split
    · rename_i hspace
      exact result_of_bound hpass hbound hspace
    · rename_i hspace
      exact result_of_full hpass hbound (not_lt.mp hspace)
  · intro before r after hsplit hbefore hr
    rcases unbound hr with hnone | ⟨s, hget, hkind, hvalue⟩
    · refine .inl ⟨hnone, result_of_error hpass hsplit hbefore ?_⟩
      intro d' hsymbols
      refine Draft.resolve_of_unlabelled ?_
      rwa [hsymbols]
    · refine .inr ⟨s, hget, hkind, hvalue, result_of_error hpass hsplit hbefore ?_⟩
      intro d' hsymbols
      rw [← hsymbols] at hget
      exact Draft.resolve_of_wide hget hkind hvalue

theorem operands_resolved_forward : ∃ p s,
    (assembleSource .least ["jump top", "nop", "label top"]).result = .ok p ∧
      p.symbols.get? "top" = some s ∧ s.kind = .label ∧
      p.image.words[0]? = some (Instruction.encode ⟨.jump, s.value⟩) := by
  cases h : (assembleSource .least ["jump top", "nop", "label top"]).result with
  | ok p =>
    have hvisit : ⟨⟨1, none⟩, "jump top", ["nop", "label top"], Draft.empty Config.least.size⟩ ∈
        visitsOf .least ["jump top", "nop", "label top"] := by
      rw [visitsOf, visits]
      exact List.mem_cons_self
    obtain ⟨_, s, hget, _, hkind, hword⟩ :=
      (operands_resolved .least ["jump top", "nop", "label top"]).1 p h _ hvisit .jump "top"
        (by cbv) (by decide)
    refine ⟨p, s, rfl, hget, hkind (by cbv), hword ?_⟩
    intro u hu w
    have hstored : (visitsOf .least ["jump top", "nop", "label top"]).all
        (fun u => decide (u.stored? = none)) = true := by cbv
    have hnone := of_decide_eq_true (List.all_eq_true.mp hstored u hu)
    rw [hnone]
    simp
  | error e =>
    have hsome : (assembleSource .least ["jump top", "nop", "label top"]).result.isOk = true := by
      cbv
    rw [h] at hsome
    cases hsome

end WordMachine.Assembly
