import WordMachine.Proofs.Assembly.Effects
import WordMachine.Proofs.Assembly.Names
import WordMachine.Proofs.Assembly.Visits

/-!
# What a pass leaves

A visit reads off the draft what its line does; `Leads` says which draft it leaves. Macros and the
journal have no part in it. A trace is a list of visits each of which finds what the one before it
leaves, and the visits of a pass are one.
-/

namespace WordMachine.Assembly

inductive Visit.Leads (v : Visit) : Draft → Prop
  | intro {s : Statement} {e : Effect} (macros : MacroTable) (journal : Journal)
    (hstatement : v.statement? = some s) (hspace : v.before.isFull = false)
    (heffect : v.before.effectOf s = .ok e) :
    v.Leads { v.before.apply v.here s e with macros := macros, journal := journal }

inductive Trace : Draft → List Visit → Draft → Prop
  | nil {d} : Trace d [] d
  | cons {v vs d d'} (step : v.Leads d) (tail : Trace d vs d') : Trace v.before (v :: vs) d'

variable {limit levels number skipped : Nat} {inMacro : Option String} {line name : String}
  {lines rest body : List String} {here : Location} {d d' d₁ : Draft} {v : Visit}
  {vs ws : List Visit} {s : Statement} {e : Effect}

namespace Draft

inductive Advances (d : Draft) (here : Location) (line : String) (rest : List String) :
    Advance → Prop
  | capture {name : String} {body after : List String}
      (hline : Statement.ofFields (tokenize line) = .ok (.beginMacro name))
      (hspace : d.isFull = false) (houter : here.inMacro = none)
      (hbody : captureBody rest = some (body, after)) (hfree : d.macros.contains name = false) :
      Advances d here line rest
        (.next ((d.note (.captured name body.length)).withMacros (d.macros.insert name body))
          (body.length + 1))
  | effect {s : Statement} {e : Effect} (hline : Statement.ofFields (tokenize line) = .ok s)
      (hspace : d.isFull = false) (hs : ∀ name, s ≠ .beginMacro name)
      (heffect : d.effectOf s = .ok e) (he : ∀ name body, e ≠ .expand name body) :
      Advances d here line rest (.next (d.apply here s e) 0)
  | expand {s : Statement} {name : String} {body : List String}
      (hline : Statement.ofFields (tokenize line) = .ok s) (hspace : d.isFull = false)
      (heffect : d.effectOf s = .ok (.expand name body)) :
      Advances d here line rest (.expand d name body)

theorem obey_of_ne (hs : ∀ name, s ≠ .beginMacro name) : d.obey here s rest =
    match d.effectOf s with
    | .error cause => .error (d.failure here cause)
    | .ok (.expand name body) => .ok (.expand d name body)
    | .ok effect => .ok (.next (d.apply here s effect) 0) := by
  cases s with
  | beginMacro name => exact absurd rfl (hs name)
  | _ => rfl

theorem advances_of_capture {a : Advance}
    (hline : Statement.ofFields (tokenize line) = .ok (.beginMacro name))
    (hspace : d.isFull = false) (h : d.capture here name rest = .ok a) :
    d.Advances here line rest a := by
  unfold capture at h
  split at h
  · cases h
  · rename_i houter
    split at h
    · cases h
    · rename_i body after hbody
      cases hname : (d.note (.captured name body.length)).macros.contains name with
      | true => simp [MacroTable.define_of_taken body hname] at h
      | false =>
        simp only [MacroTable.define_of_free body hname] at h
        obtain rfl := Except.ok.inj h
        exact .capture hline hspace (by simpa using houter) hbody hname

theorem advances_of_advance {a : Advance} (h : d.advance here line rest = .ok a) :
    d.Advances here line rest a := by
  unfold advance at h
  split at h
  · cases h
  · rename_i hfull
    have hspace : d.isFull = false := by simpa using hfull
    split at h
    · cases h
    · rename_i s hline
      unfold obey at h
      split at h
      · exact advances_of_capture hline hspace h
      · rename_i hs
        split at h
        · cases h
        · rename_i heffect
          obtain rfl := Except.ok.inj h
          exact .expand hline hspace heffect
        · rename_i he heffect
          obtain rfl := Except.ok.inj h
          exact .effect hline hspace (fun name hname => hs name hname) heffect
            (fun name body hexpand => he name body hexpand)

theorem advance_of_advances {a : Advance} (h : d.Advances here line rest a) :
    d.advance here line rest = .ok a := by
  unfold advance
  cases h with
  | capture hline hspace houter hbody hfree =>
    have hfree' : ∀ entry, (d.note entry).macros.contains _ = false := fun _ => hfree
    simp [hspace, hline, obey, capture, houter, hbody, MacroTable.define_of_free _ (hfree' _)]
    rfl
  | @effect s e hline hspace hs heffect he =>
    simp only [hspace, hline, Bool.false_eq_true, if_false]
    unfold obey
    split
    · exact absurd rfl (hs _)
    · rw [heffect]
      split
      · rename_i herror
        cases herror
      · rename_i hexpand
        exact absurd (Except.ok.inj hexpand) (he _ _)
      · rename_i hok
        obtain rfl := Except.ok.inj hok
        rfl
  | @expand s name body hline hspace heffect =>
    simp only [hspace, hline, Bool.false_eq_true, if_false]
    unfold obey
    split
    · simp [effectOf] at heffect
    · rw [heffect]

end Draft

theorem leads_of_advance (h : d.advance here line rest = .ok (.next d' skipped)) :
    (Visit.mk here line rest d).Leads d' := by
  cases Draft.advances_of_advance h with
  | @capture name body after hline hspace houter hbody hfree =>
    have hstatement : (Visit.mk here line rest d).statement? = some (.beginMacro name) := by
      rw [Visit.statement?, hline]
      rfl
    exact .intro (d.macros.insert name body) _ hstatement hspace rfl
  | @effect s e hline hspace hs heffect he =>
    have hstatement : (Visit.mk here line rest d).statement? = some s := by
      rw [Visit.statement?, hline]
      rfl
    exact .intro (d.apply here s e).macros (d.apply here s e).journal hstatement hspace heffect

theorem leads_of_expand (h : d.advance here line rest = .ok (.expand d₁ name body))
    (entry : Entry) : (Visit.mk here line rest d).Leads (d₁.note entry) := by
  cases Draft.advances_of_advance h with
  | @expand s _ _ hline hspace heffect =>
    have hstatement : (Visit.mk here line rest d).statement? = some s := by
      rw [Visit.statement?, hline]
      rfl
    exact .intro d.macros _ hstatement hspace heffect

namespace Visit.Leads

theorem cases (h : v.Leads d) : ∃ s e, v.statement? = some s ∧ v.before.Does s e ∧
    v.effect? = some e ∧ v.before.used < v.before.data ∧ ∃ macros journal,
      d = { v.before.apply v.here s e with macros := macros, journal := journal } := by
  obtain ⟨macros, journal, hs, hspace, heffect⟩ := h
  refine ⟨_, _, hs, Draft.does_of_effectOf heffect, ?_, by simpa [Draft.isFull] using hspace,
    macros, journal, rfl⟩
  simp [effect?, hspace, hs, heffect, Except.toOption]

theorem size (h : v.Leads d) : d.size = v.before.size := by
  obtain ⟨s, e, _, _, _, _, macros, journal, rfl⟩ := h.cases
  cases e <;> rfl

theorem used (h : v.Leads d) : d.used = v.before.used + v.word?.toList.length := by
  obtain ⟨s, e, _, _, heffect, _, macros, journal, rfl⟩ := h.cases
  rw [word?, heffect]
  cases e <;> rfl

theorem emission_address {a : Nat} {w : Word} (h : v.Leads d) (hw : v.emission? = some (a, w)) :
    v.before.used = a ∧ d.used = a + 1 ∧ a < v.before.data := by
  obtain ⟨s, e, _, _, _, hspace, _⟩ := h.cases
  obtain ⟨w', hword, hpair⟩ := Option.map_eq_some_iff.mp hw
  obtain ⟨haddress, _⟩ := Prod.mk.inj hpair
  have hused := h.used
  rw [hword, Option.toList_some, List.length_singleton] at hused
  omega

theorem symbols (h : v.Leads d) :
    d.symbols.toList = v.before.symbols.toList ++ v.defined?.toList := by
  obtain ⟨s, e, _, _, heffect, _, macros, journal, rfl⟩ := h.cases
  rw [defined?, heffect]
  cases e <;> simp [Draft.apply, Draft.emit, Draft.refer, Draft.store, Draft.define, Draft.reserve]

theorem references (h : v.Leads d) :
    d.references.toList = v.before.references.toList ++ v.forward?.toList := by
  obtain ⟨s, e, _, _, heffect, _, macros, journal, rfl⟩ := h.cases
  rw [forward?, heffect]
  cases e <;> simp [Draft.apply, Draft.emit, Draft.refer, Draft.store, Draft.define, Draft.reserve]

theorem length_cells (h : v.Leads d) : d.cells.size = v.before.cells.size := by
  obtain ⟨s, e, _, _, _, _, macros, journal, rfl⟩ := h.cases
  cases e <;> simp [Draft.apply, Draft.emit, Draft.refer, Draft.store, Draft.define, Draft.reserve]

theorem cells_eq (h : v.Leads d) :
    d.data ≤ v.before.data ∧ v.cells = Finset.Ioc d.data v.before.data := by
  obtain ⟨s, e, _, hdoes, heffect, hspace, macros, journal, rfl⟩ := h.cases
  rw [Visit.cells, heffect]
  cases hdoes with
  | dataCell hfree =>
    refine ⟨Nat.sub_le _ _, ?_⟩
    ext a
    simp only [Draft.apply, Draft.define, Draft.reserve, Finset.mem_singleton, Finset.mem_Ioc]
    omega
  | allocate hcount hroom =>
    exact ⟨Nat.sub_le _ _, rfl⟩
  | _ => exact ⟨le_refl _, (Finset.Ioc_self _).symm⟩

theorem getElem?_emission {a : Nat} {w : Word} (h : v.Leads d) (hw : v.emission? = some (a, w))
    (ha : a < v.before.cells.size) : d.cells[a]? = some w := by
  obtain ⟨s, e, _, _, heffect, _, macros, journal, rfl⟩ := h.cases
  rw [emission?, word?, heffect] at hw
  cases e with
  | emit w' | emitForward name w' =>
    simp only [Option.map_some, Option.some.injEq, Prod.mk.injEq] at hw
    obtain ⟨rfl, rfl⟩ := hw
    simp [Draft.apply, Draft.emit, Draft.refer, ha]
  | _ => simp at hw

theorem getElem?_frame {a : Nat} (h : v.Leads d) (hemit : ∀ w, v.emission? ≠ some (a, w))
    (hstore : ∀ w, v.stored? ≠ some (a, w)) : d.cells[a]? = v.before.cells[a]? := by
  obtain ⟨s, e, _, _, heffect, _, macros, journal, rfl⟩ := h.cases
  cases e with
  | emit w | emitForward name w =>
    have hne : v.before.used ≠ a := by
      intro ha
      refine hemit w ?_
      simp [emission?, word?, heffect, ha]
    simp [Draft.apply, Draft.emit, Draft.refer, hne]
  | store address w =>
    have hne : address ≠ a := by
      intro ha
      refine hstore w ?_
      simp [stored?, heffect, ha]
    simp [Draft.apply, Draft.store, hne]
  | _ => rfl

end Visit.Leads

/-- The references are those of words already emitted, in the order of the words. -/
structure Draft.Sound (d : Draft) : Prop where
  length_cells : d.cells.size = d.size.words
  data_lt : d.data < d.size.words
  coherent : d.symbols.Coherent
  referred : ∀ r ∈ d.references.toList, r.address < d.used
  ordered : d.references.toList.Pairwise fun q r => q.address < r.address

theorem Draft.sound_empty (size : MemorySize) : (Draft.empty size).Sound where
  length_cells := by simp [Draft.empty]
  data_lt := by
    have hpos := size.words_pos
    simp only [Draft.empty]
    omega
  coherent := SymbolTable.coherent_empty
  referred := by simp [Draft.empty]
  ordered := by simp [Draft.empty]

namespace Visit.Leads

theorem free (h : v.Leads d) {s : Symbol} (hs : v.defined? = some s) :
    v.before.symbols.contains s.name = false ∧ d.symbols = v.before.symbols.insert s := by
  obtain ⟨s, e, _, hdoes, heffect, _, macros, journal, rfl⟩ := h.cases
  rw [defined?, heffect] at hs
  cases hdoes with
  | dataCell hfree | label hfree | constant _ hfree =>
    obtain rfl := Option.some.inj hs
    exact ⟨hfree, rfl⟩
  | _ => simp at hs

theorem symbols_of_none (h : v.Leads d) (hs : v.defined? = none) :
    d.symbols = v.before.symbols := by
  obtain ⟨s, e, _, _, heffect, _, macros, journal, rfl⟩ := h.cases
  rw [defined?, heffect] at hs
  cases e with
  | define s | defineCell s => simp at hs
  | _ => rfl

theorem forward_address {r : Reference} (h : v.Leads d) (hr : v.forward? = some r) :
    r.address = v.before.used ∧ d.used = v.before.used + 1 := by
  obtain ⟨s, e, _, _, heffect, _, macros, journal, rfl⟩ := h.cases
  rw [forward?, heffect] at hr
  cases e with
  | emitForward name w =>
    obtain rfl := Option.some.inj hr
    exact ⟨rfl, rfl⟩
  | _ => simp at hr

theorem coherent (h : v.Leads d) (hsound : v.before.symbols.Coherent) : d.symbols.Coherent := by
  cases hs : v.defined? with
  | none => rwa [h.symbols_of_none hs]
  | some s =>
    obtain ⟨hfree, hsymbols⟩ := h.free hs
    rw [hsymbols]
    exact hsound.insert hfree

theorem get? {s : Symbol} (h : v.Leads d) (hsound : v.before.symbols.Coherent)
    (hget : v.before.symbols.get? name = some s) : d.symbols.get? name = some s := by
  cases hs : v.defined? with
  | none => rwa [h.symbols_of_none hs]
  | some s' =>
    obtain ⟨hfree, hsymbols⟩ := h.free hs
    rw [hsymbols]
    exact hsound.get?_insert_of_get? hfree hget

theorem sound (h : v.Leads d) (hsound : v.before.Sound) : d.Sound := by
  have hused := h.used
  refine ⟨?_, ?_, h.coherent hsound.coherent, ?_, ?_⟩
  · rw [h.length_cells, h.size]
    exact hsound.length_cells
  · rw [h.size]
    exact lt_of_le_of_lt h.cells_eq.1 hsound.data_lt
  · intro r hr
    rw [h.references, List.mem_append, Option.mem_toList] at hr
    rcases hr with hr | hr
    · have := hsound.referred r hr
      omega
    · obtain ⟨haddress, hsucc⟩ := h.forward_address hr
      omega
  · rw [h.references, List.pairwise_append]
    refine ⟨hsound.ordered, by cases v.forward? <;> simp, ?_⟩
    intro q hq r hr
    rw [(h.forward_address (Option.mem_toList.mp hr)).1]
    exact hsound.referred q hq

end Visit.Leads

namespace Trace

theorem append (h : Trace d vs d') (h' : Trace d' ws d₁) : Trace d (vs ++ ws) d₁ := by
  induction h with
  | nil => exact h'
  | cons step tail ih => exact .cons step (ih h')

theorem split (h : Trace d (vs ++ ws) d') : ∃ d₁, Trace d vs d₁ ∧ Trace d₁ ws d' := by
  induction vs generalizing d with
  | nil => exact ⟨d, .nil, h⟩
  | cons v vs ih =>
    cases h with
    | cons step tail =>
      obtain ⟨d₁, hfirst, hlast⟩ := ih tail
      exact ⟨d₁, .cons step hfirst, hlast⟩

theorem of_passes (h : Passes limit levels inMacro number lines d vs d') : Trace d vs d' := by
  induction h with
  | done => exact .nil
  | next h tail ih => exact .cons (leads_of_advance h) ih
  | expand h inner tail ihinner ihtail =>
    exact .cons (leads_of_expand h _) (ihinner.append ihtail)

theorem of_pass {config : Config} (h : pass config lines = .ok d) :
    Trace (Draft.empty config.size) (visitsOf config lines) d :=
  of_passes (passes_of_assembleLines h)

theorem leads (h : Trace d vs d') (hv : v ∈ vs) : ∃ d₁, v.Leads d₁ := by
  induction h with
  | nil => simp at hv
  | cons step tail ih =>
    rcases List.mem_cons.mp hv with rfl | hmem
    · exact ⟨_, step⟩
    · exact ih hmem

theorem size (h : Trace d vs d') : d'.size = d.size := by
  induction h with
  | nil => rfl
  | cons step tail ih => rw [ih, step.size]

theorem sound (h : Trace d vs d') (hsound : d.Sound) : d'.Sound := by
  induction h with
  | nil => exact hsound
  | cons step tail ih => exact ih (step.sound hsound)

theorem get? {s : Symbol} (h : Trace d vs d') (hsound : d.Sound)
    (hget : d.symbols.get? name = some s) : d'.symbols.get? name = some s := by
  induction h with
  | nil => exact hget
  | cons step tail ih => exact ih (step.sound hsound) (step.get? hsound.coherent hget)

theorem get?_of_visit {s : Symbol} (h : Trace d vs d') (hsound : d.Sound) (hv : v ∈ vs)
    (hget : v.before.symbols.get? name = some s) : d'.symbols.get? name = some s := by
  obtain ⟨before, after, rfl⟩ := List.append_of_mem hv
  obtain ⟨d₀, hbefore, hrest⟩ := h.split
  have hsound₀ := hbefore.sound hsound
  cases hrest with
  | cons step tail => exact (Trace.cons step tail).get? hsound₀ hget

theorem used (h : Trace d vs d') : d'.used = d.used + (vs.filterMap Visit.word?).length := by
  induction h with
  | nil => rfl
  | @cons v _ _ _ step tail ih =>
    rw [ih, step.used, ← List.singleton_append, List.filterMap_append, List.length_append]
    cases hw : v.word? with
    | none => simp [hw]
    | some w =>
      simp [hw]
      omega

theorem symbols (h : Trace d vs d') :
    d'.symbols.toList = d.symbols.toList ++ vs.filterMap Visit.defined? := by
  induction h with
  | nil => simp
  | @cons v _ _ _ step tail ih =>
    rw [ih, step.symbols, List.append_assoc]
    cases hs : v.defined? <;> simp [hs]

theorem references (h : Trace d vs d') :
    d'.references.toList = d.references.toList ++ vs.filterMap Visit.forward? := by
  induction h with
  | nil => simp
  | @cons v _ _ _ step tail ih =>
    rw [ih, step.references, List.append_assoc]
    cases hr : v.forward? <;> simp [hr]

theorem emissions (h : Trace d vs d') : (vs.filterMap Visit.emission?).map Prod.fst =
    List.range' d.used (vs.filterMap Visit.word?).length := by
  induction h with
  | nil => rfl
  | @cons v _ _ _ step tail ih =>
    have hused := step.used
    cases hw : v.word? with
    | none =>
      rw [hw] at hused
      simp only [List.filterMap_cons, Visit.emission?, hw, Option.map_none]
      rw [ih, hused]
      rfl
    | some w =>
      rw [hw] at hused
      simp only [List.filterMap_cons, Visit.emission?, hw, Option.map_some, List.map_cons,
        List.length_cons, List.range'_succ]
      rw [ih, hused]
      rfl

theorem data_le (h : Trace d vs d') : d'.data ≤ d.data := by
  induction h with
  | nil => exact le_refl _
  | cons step tail ih => exact le_trans ih step.cells_eq.1

theorem cells_subset (h : Trace d vs d') (hv : v ∈ vs) : v.cells ⊆ Finset.Ioc d'.data d.data := by
  induction h with
  | nil => simp at hv
  | cons step tail ih =>
    obtain ⟨hle, hcells⟩ := step.cells_eq
    rcases List.mem_cons.mp hv with rfl | hmem
    · rw [hcells]
      exact Finset.Ioc_subset_Ioc_left tail.data_le
    · exact (ih hmem).trans (Finset.Ioc_subset_Ioc_right hle)

theorem cells_disjoint (h : Trace d vs d') : (vs.map Visit.cells).Pairwise Disjoint := by
  induction h with
  | nil => exact .nil
  | cons step tail ih =>
    rw [List.map_cons, List.pairwise_cons]
    refine ⟨?_, ih⟩
    intro block hblock
    obtain ⟨u, hu, rfl⟩ := List.mem_map.mp hblock
    -- later cells are taken from below the data bound that this visit leaves
    have hbelow := tail.cells_subset hu
    rw [step.cells_eq.2, Finset.disjoint_left]
    intro a habove ha
    have hlow := Finset.mem_Ioc.mp (hbelow ha)
    have hhigh := Finset.mem_Ioc.mp habove
    omega

theorem getElem?_frame {a : Nat} (h : Trace d vs d')
    (hemit : ∀ v ∈ vs, ∀ w, v.emission? ≠ some (a, w))
    (hstore : ∀ v ∈ vs, ∀ w, v.stored? ≠ some (a, w)) : d'.cells[a]? = d.cells[a]? := by
  induction h with
  | nil => rfl
  | cons step tail ih =>
    rw [ih (fun v hv => hemit v (List.mem_cons_of_mem _ hv))
      (fun v hv => hstore v (List.mem_cons_of_mem _ hv))]
    exact step.getElem?_frame (hemit _ List.mem_cons_self) (hstore _ List.mem_cons_self)

theorem emission_range {a : Nat} {w : Word} (h : Trace d vs d') (hv : v ∈ vs)
    (hw : v.emission? = some (a, w)) : d.used ≤ a ∧ a < d'.used := by
  have hmem : a ∈ (vs.filterMap Visit.emission?).map Prod.fst :=
    List.mem_map.mpr ⟨(a, w), List.mem_filterMap.mpr ⟨v, hv, hw⟩, rfl⟩
  rw [h.emissions, List.mem_range'_1] at hmem
  have hused := h.used
  omega

theorem emission_ne {a : Nat} {w w' : Word} {u : Visit} (step : v.Leads d) (tail : Trace d vs d')
    (hw : v.emission? = some (a, w)) (hu : u ∈ vs) : u.emission? ≠ some (a, w') := by
  intro hw'
  have hlow := (tail.emission_range hu hw').1
  obtain ⟨_, hused, _⟩ := step.emission_address hw
  omega

theorem eq_of_emission {a : Nat} {w w' : Word} {u : Visit} (h : Trace d vs d') (hu : u ∈ vs)
    (hv : v ∈ vs) (huw : u.emission? = some (a, w)) (hvw : v.emission? = some (a, w')) :
    u = v := by
  induction h with
  | nil => simp at hu
  | cons step tail ih =>
    rcases List.mem_cons.mp hu with rfl | hu'
    · rcases List.mem_cons.mp hv with rfl | hv'
      · rfl
      · exact absurd hvw (emission_ne step tail huw hv')
    · rcases List.mem_cons.mp hv with rfl | hv'
      · exact absurd huw (emission_ne step tail hvw hu')
      · exact ih hu' hv'

theorem getElem?_emission {a : Nat} {w : Word} (h : Trace d vs d') (hsound : d.Sound)
    (hv : v ∈ vs) (hw : v.emission? = some (a, w))
    (hstore : ∀ u ∈ vs, ∀ w, u.stored? ≠ some (a, w)) : d'.cells[a]? = some w := by
  induction h with
  | nil => simp at hv
  | cons step tail ih =>
    rcases List.mem_cons.mp hv with rfl | hmem
    · have hbound : a < v.before.cells.size := by
        have hlength := hsound.length_cells
        have hdata := hsound.data_lt
        have hspace := (step.emission_address hw).2.2
        omega
      -- the addresses of the later words are higher
      rw [← step.getElem?_emission hw hbound]
      exact tail.getElem?_frame (fun u hu w => emission_ne step tail hw hu)
        (fun u hu => hstore u (List.mem_cons_of_mem _ hu))
    · exact ih (step.sound hsound) hmem fun u hu => hstore u (List.mem_cons_of_mem _ hu)

end Trace

end WordMachine.Assembly
