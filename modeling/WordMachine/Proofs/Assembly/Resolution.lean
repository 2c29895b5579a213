import WordMachine.Proofs.Assembly.Trace

/-!
# Resolution of references

After the pass the table of symbols stands. A reference is bound if its name is that of a label
that fits an operand; resolution fills in all references, or fails at the first that is not bound.
-/

namespace WordMachine.Assembly

def Reference.Bound (t : SymbolTable) (r : Reference) : Prop :=
  ∃ s, t.get? r.name = some s ∧ s.kind = .label ∧ s.value ≤ operandMask

variable {d d' : Draft} {r : Reference} {rs qs : List Reference} {s : Symbol} {a : Nat}

theorem and_operandMask_of_le {w : Word} (h : w ≤ operandMask) : w &&& operandMask = w := by
  have hw : w.toNat ≤ 4095 := h
  apply UInt16.toNat_inj.1
  rw [toNat_and_operandMask]
  exact Nat.mod_eq_of_lt (by omega)

theorem opcode_of_patch (w : Word) {value : Word} (h : value ≤ operandMask) :
    ((w &&& ~~~operandMask) ||| value) &&& ~~~operandMask = w &&& ~~~operandMask := by
  rw [← and_operandMask_of_le h]
  apply UInt16.toBitVec_inj.1
  ext i hi
  simp only [UInt16.toBitVec_and, UInt16.toBitVec_or, UInt16.toBitVec_not, BitVec.getElem_and,
    BitVec.getElem_or, BitVec.getElem_not]
  cases w.toBitVec[i] <;> cases operandMask.toBitVec[i] <;> simp

theorem patch_encode (opcode : Opcode) {value : Word} (h : value ≤ operandMask) :
    (Instruction.encode ⟨opcode, 0⟩ &&& ~~~operandMask) ||| value =
      Instruction.encode ⟨opcode, value⟩ := by
  have hopcode : Instruction.encode ⟨opcode, 0⟩ &&& ~~~operandMask =
      UInt16.ofNat (opcode.code * 4096) := by
    cases opcode <;> rfl
  rw [hopcode, Instruction.encode, and_operandMask_of_le h]

namespace Draft

theorem operandOf_of_le {w : Word} (h : w ≤ operandMask) : operandOf w = .ok w := by
  rw [operandOf, if_neg (UInt16.not_lt.mpr h)]

theorem resolve_of_bound (hget : d.symbols.get? r.name = some s) (hkind : s.kind = .label)
    (hvalue : s.value ≤ operandMask) : d.resolve r = .ok (d.patch r.address r.name s.value) := by
  obtain ⟨name, kind, value⟩ := s
  obtain rfl : kind = .label := hkind
  simp only [resolve, hget, operandOf_of_le hvalue]

theorem resolve_of_unlabelled (h : ∀ s, d.symbols.get? r.name = some s → s.kind ≠ .label) :
    d.resolve r = .error (d.failure r.location (.unresolvedReference r.name)) := by
  unfold resolve
  split
  · rename_i hget
    exact absurd rfl (h _ hget)
  · rfl

theorem resolve_of_wide (hget : d.symbols.get? r.name = some s) (hkind : s.kind = .label)
    (hvalue : operandMask < s.value) :
    d.resolve r = .error (d.failure r.location (.operandTooLarge s.value)) := by
  obtain ⟨name, kind, value⟩ := s
  obtain rfl : kind = .label := hkind
  simp only [resolve, hget, operandOf, if_pos hvalue]

theorem bound_of_resolve (h : d.resolve r = .ok d') : ∃ s, d.symbols.get? r.name = some s ∧
    s.kind = .label ∧ s.value ≤ operandMask ∧ d' = d.patch r.address r.name s.value := by
  unfold resolve at h
  split at h
  · rename_i value hget
    split at h
    · contradiction
    · rename_i operand hoperand
      obtain ⟨rfl, hvalue⟩ := operandOf_ok hoperand
      exact ⟨_, hget, rfl, hvalue, (Except.ok.inj h).symm⟩
  · contradiction

theorem resolveAll_frame (h : resolveAll rs d = .ok d') :
    d'.symbols = d.symbols ∧ d'.used = d.used ∧ d'.data = d.data ∧ d'.size = d.size ∧
      d'.cells.size = d.cells.size := by
  induction rs generalizing d with
  | nil =>
    obtain rfl := Except.ok.inj h
    exact ⟨rfl, rfl, rfl, rfl, rfl⟩
  | cons r rs ih =>
    rw [resolveAll] at h
    split at h
    · contradiction
    · rename_i d₁ hr
      obtain ⟨s, _, _, _, rfl⟩ := bound_of_resolve hr
      obtain ⟨hsymbols, hused, hdata, hsize, hcells⟩ := ih h
      refine ⟨hsymbols, hused, hdata, hsize, ?_⟩
      rw [hcells]
      simp [patch]

theorem bound_of_resolveAll (h : resolveAll rs d = .ok d') : ∀ r ∈ rs, r.Bound d.symbols := by
  induction rs generalizing d with
  | nil => simp
  | cons r rs ih =>
    rw [resolveAll] at h
    split at h
    · contradiction
    · rename_i d₁ hr
      obtain ⟨s, hget, hkind, hvalue, rfl⟩ := bound_of_resolve hr
      intro q hq
      rcases List.mem_cons.mp hq with rfl | hmem
      · exact ⟨s, hget, hkind, hvalue⟩
      · exact ih h q hmem

theorem resolveAll_of_bound (h : ∀ r ∈ rs, r.Bound d.symbols) : ∃ d', resolveAll rs d = .ok d' := by
  induction rs generalizing d with
  | nil => exact ⟨d, rfl⟩
  | cons r rs ih =>
    obtain ⟨s, hget, hkind, hvalue⟩ := h r List.mem_cons_self
    rw [resolveAll, resolve_of_bound hget hkind hvalue]
    exact ih fun q hq => h q (List.mem_cons_of_mem _ hq)

theorem resolveAll_of_error (rs : List Reference) {cause : Cause}
    (hqs : ∀ q ∈ qs, q.Bound d.symbols)
    (hr : ∀ d' : Draft, d'.symbols = d.symbols →
      d'.resolve r = .error (d'.failure r.location cause)) :
    ∃ journal, resolveAll (qs ++ r :: rs) d = .error ⟨⟨cause, some r.location⟩, journal⟩ := by
  induction qs generalizing d with
  | nil =>
    rw [List.nil_append, resolveAll, hr d rfl]
    exact ⟨_, rfl⟩
  | cons q qs ih =>
    obtain ⟨s, hget, hkind, hvalue⟩ := hqs q List.mem_cons_self
    rw [List.cons_append, resolveAll, resolve_of_bound hget hkind hvalue]
    exact ih (fun p hp => hqs p (List.mem_cons_of_mem _ hp)) hr

theorem getElem?_resolveAll_of_notMem (h : resolveAll rs d = .ok d')
    (ha : ∀ r ∈ rs, r.address ≠ a) : d'.cells[a]? = d.cells[a]? := by
  induction rs generalizing d with
  | nil =>
    obtain rfl := Except.ok.inj h
    rfl
  | cons r rs ih =>
    rw [resolveAll] at h
    split at h
    · contradiction
    · rename_i d₁ hr
      obtain ⟨s, _, _, _, rfl⟩ := bound_of_resolve hr
      rw [ih h fun q hq => ha q (List.mem_cons_of_mem _ hq)]
      have hne := ha r List.mem_cons_self
      simp [patch, Array.getElem?_modify, hne]

theorem getElem?_resolveAll (h : resolveAll rs d = .ok d')
    (hordered : rs.Pairwise fun q r => q.address < r.address) (hr : r ∈ rs)
    (hget : d.symbols.get? r.name = some s) :
    d'.cells[r.address]? =
      d.cells[r.address]?.map fun w => (w &&& ~~~operandMask) ||| s.value := by
  induction rs generalizing d with
  | nil => simp at hr
  | cons q rs ih =>
    rw [List.pairwise_cons] at hordered
    rw [resolveAll] at h
    split at h
    · contradiction
    · rename_i d₁ hq
      obtain ⟨s', hget', _, _, rfl⟩ := bound_of_resolve hq
      rcases List.mem_cons.mp hr with rfl | hmem
      · obtain rfl : s' = s := Option.some.inj (hget'.symm.trans hget)
        rw [getElem?_resolveAll_of_notMem h fun p hp => (hordered.1 p hp).ne']
        simp [patch, Array.getElem?_modify]
      · have hne := (hordered.1 r hmem).ne
        rw [ih h hordered.2 hmem hget]
        simp [patch, Array.getElem?_modify, hne]

end Draft

theorem exists_ok {ε α β : Type} {x : Except ε α} {f : α → β} {b : β}
    (h : x.toOption.map f = some b) : ∃ a, x = .ok a ∧ f a = b := by
  cases x with
  | error e => contradiction
  | ok a => exact ⟨a, rfl, Option.some.inj h⟩

theorem finish_ok {p : Program} (h : d.finish.result = .ok p) : ∃ d',
    Draft.resolveAll d.references.toList d = .ok d' ∧ d'.used < d'.data ∧ p = d'.program := by
  unfold Draft.finish at h
  split at h
  · contradiction
  · rename_i d' hresolve
    split at h
    · contradiction
    · rename_i hfull
      refine ⟨d', hresolve, ?_, (Except.ok.inj h).symm⟩
      simpa [Draft.isFull] using hfull

theorem assembleSource_eq (config : Config) (lines : List String) :
    assembleSource config lines =
      match pass config lines with
      | .error f => ⟨.error f.error, f.journal⟩
      | .ok d => d.finish := rfl

theorem assembleSource_ok {config : Config} {lines : List String} {p : Program}
    (h : (assembleSource config lines).result = .ok p) : ∃ d d', pass config lines = .ok d ∧
      Draft.resolveAll d.references.toList d = .ok d' ∧ d.used < d.data ∧ p = d'.program := by
  rw [assembleSource_eq] at h
  split at h
  · contradiction
  · rename_i d hpass
    obtain ⟨d', hresolve, hspace, rfl⟩ := finish_ok h
    obtain ⟨_, hused, hdata, _, _⟩ := Draft.resolveAll_frame hresolve
    rw [hused, hdata] at hspace
    exact ⟨d, d', hpass, hresolve, hspace, rfl⟩

theorem emission_of_forward {v : Visit} (h : v.forward? = some r) :
    ∃ w, v.emission? = some (r.address, w) := by
  unfold Visit.forward? at h
  split at h
  · rename_i name w heffect
    obtain rfl := Option.some.inj h
    exact ⟨w, by simp [Visit.emission?, Visit.word?, heffect]⟩
  · contradiction

theorem references_of_pass {config : Config} {lines : List String}
    (h : pass config lines = .ok d) :
    d.references.toList = (visitsOf config lines).filterMap Visit.forward? := by
  rw [(Trace.of_pass h).references]
  simp [Draft.empty]

theorem code_of_visit {config : Config} {lines : List String} {p : Program} {v : Visit} {w : Word}
    (h : (assembleSource config lines).result = .ok p) (hv : v ∈ visitsOf config lines)
    (hw : v.emission? = some (a, w))
    (hstore : ∀ u ∈ visitsOf config lines, ∀ w, u.stored? ≠ some (a, w)) :
    (v.forward? = none → p.image.words[a]? = some w) ∧
      ∀ r, v.forward? = some r → ∃ s, p.symbols.get? r.name = some s ∧ s.kind = .label ∧
        s.value ≤ operandMask ∧
        p.image.words[a]? = some ((w &&& ~~~operandMask) ||| s.value) := by
  obtain ⟨d, d', hpass, hresolve, _, rfl⟩ := assembleSource_ok h
  have trace := Trace.of_pass hpass
  have hsound := trace.sound (Draft.sound_empty config.size)
  have hcell := trace.getElem?_emission (Draft.sound_empty config.size) hv hw hstore
  have hreferences := references_of_pass hpass
  constructor
  · -- a reference to this address would come from a visit that emits here: from this one
    intro hforward
    refine (Draft.getElem?_resolveAll_of_notMem hresolve ?_).trans hcell
    intro r hr haddress
    rw [hreferences] at hr
    obtain ⟨u, hu, hur⟩ := List.mem_filterMap.mp hr
    obtain ⟨w', huw⟩ := emission_of_forward hur
    rw [haddress] at huw
    obtain rfl := trace.eq_of_emission hu hv huw hw
    rw [hforward] at hur
    contradiction
  · intro r hforward
    have hr : r ∈ d.references.toList := by
      rw [hreferences]
      exact List.mem_filterMap.mpr ⟨v, hv, hforward⟩
    obtain ⟨s, hget, hkind, hvalue⟩ := Draft.bound_of_resolveAll hresolve r hr
    have hpatched := Draft.getElem?_resolveAll hresolve hsound.ordered hr hget
    obtain ⟨w', huw⟩ := emission_of_forward hforward
    have haddress : r.address = a := (Prod.mk.inj (Option.some.inj (huw.symm.trans hw))).1
    rw [haddress, hcell] at hpatched
    refine ⟨s, ?_, hkind, hvalue, hpatched⟩
    rw [Draft.program, (Draft.resolveAll_frame hresolve).1]
    exact hget

end WordMachine.Assembly
