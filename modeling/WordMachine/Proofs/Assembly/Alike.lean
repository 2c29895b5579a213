import WordMachine.Proofs.Assembly.Resolution

/-!
# Alike drafts

Two drafts are alike if only their journals and the locations of their references differ. What a
line does, and the program that results, are the same for both.
-/

namespace WordMachine.Assembly

def Reference.place (r : Reference) : String × Nat := (r.name, r.address)

namespace Draft

inductive Alike (d : Draft) : Draft → Prop
  | intro (references : Array Reference) (journal : Journal)
    (h : references.toList.map Reference.place = d.references.toList.map Reference.place) :
    d.Alike { d with references := references, journal := journal }

variable {d d' e : Draft} {here : Location} {line name : String} {rest body : List String}
  {skipped : Nat} {s : Statement} {rs qs : List Reference} {p : Program}

theorem Alike.refl (d : Draft) : d.Alike d := .intro d.references d.journal rfl

theorem Alike.note (h : d.Alike e) (entry : Entry) : (d.note entry).Alike e := by
  obtain ⟨references, journal, hplaces⟩ := h
  exact .intro references journal hplaces

theorem Alike.note_right (h : d.Alike e) (entry : Entry) : d.Alike (e.note entry) := by
  obtain ⟨references, journal, hplaces⟩ := h
  exact .intro references (journal.push entry) hplaces

theorem Alike.isFull (h : d.Alike e) : e.isFull = d.isFull := by
  obtain ⟨references, journal, _⟩ := h
  rfl

theorem Alike.macros (h : d.Alike e) : e.macros = d.macros := by
  obtain ⟨references, journal, _⟩ := h
  rfl

theorem Alike.effectOf (h : d.Alike e) (s : Statement) : e.effectOf s = d.effectOf s := by
  obtain ⟨references, journal, _⟩ := h
  cases s <;> rfl

theorem Alike.insertMacro (h : d.Alike e) : (d.withMacros (d.macros.insert name body)).Alike
    (e.withMacros (e.macros.insert name body)) := by
  obtain ⟨references, journal, hplaces⟩ := h
  exact .intro references journal hplaces

theorem Alike.apply (h : d.Alike e) (here there : Location) (s : Statement) (f : Effect) :
    (d.apply here s f).Alike (e.apply there s f) := by
  obtain ⟨references, journal, hplaces⟩ := h
  cases f with
  | emitForward name w =>
    refine .intro (references.push ⟨name, d.used, there⟩) (journal.push (.emitted d.used w s)) ?_
    simp [Draft.apply, emit, refer, hplaces, Reference.place]
  | nothing => exact .intro references journal hplaces
  | expand name body => exact .intro references journal hplaces
  | emit w => exact .intro references (journal.push (.emitted d.used w s)) hplaces
  | store address w => exact .intro references (journal.push (.stored address w)) hplaces
  | define symbol => exact .intro references (journal.push (.defined symbol)) hplaces
  | defineCell symbol =>
    exact .intro references ((journal.push (.defined symbol)).push (.reserved (d.data - 1 + 1) 1))
      hplaces
  | reserve count =>
    exact .intro references (journal.push (.reserved (d.data - count + 1) count)) hplaces

theorem Alike.advance_next (h : d.Alike e) (there : Location)
    (hscope : here.inMacro = none → there.inMacro = none)
    (hadvance : d.advance here line rest = .ok (.next d' skipped)) :
    ∃ e', e.advance there line rest = .ok (.next e' skipped) ∧ d'.Alike e' := by
  cases advances_of_advance hadvance with
  | @capture name body after hline hspace houter hbody hfree =>
    rw [← h.isFull] at hspace
    rw [← h.macros] at hfree
    refine ⟨_, advance_of_advances (.capture hline hspace (hscope houter) hbody hfree), ?_⟩
    exact ((h.note _).note_right _).insertMacro
  | @effect s f hline hspace hs heffect hf =>
    rw [← h.isFull] at hspace
    rw [← h.effectOf] at heffect
    exact ⟨_, advance_of_advances (.effect hline hspace hs heffect hf), h.apply here there s f⟩

theorem Alike.advance_expand (h : d.Alike e) (there : Location)
    (hadvance : d.advance here line rest = .ok (.expand d' name body)) :
    d' = d ∧ e.advance there line rest = .ok (.expand e name body) := by
  cases advances_of_advance hadvance with
  | @expand s _ _ hline hspace heffect =>
    rw [← h.isFull] at hspace
    rw [← h.effectOf] at heffect
    exact ⟨rfl, advance_of_advances (.expand hline hspace heffect)⟩

theorem Alike.resolveAll (h : d.Alike e)
    (hplaces : qs.map Reference.place = rs.map Reference.place)
    (hresolve : resolveAll rs d = .ok d') : ∃ e', Draft.resolveAll qs e = .ok e' ∧ d'.Alike e' := by
  induction rs generalizing d e qs with
  | nil =>
    obtain rfl := Except.ok.inj hresolve
    obtain rfl := List.map_eq_nil_iff.mp hplaces
    exact ⟨e, rfl, h⟩
  | cons r rs ih =>
    obtain ⟨q, qs, rfl, hq, hqs⟩ := List.map_eq_cons_iff.mp hplaces
    obtain ⟨hname, haddress⟩ := Prod.mk.inj hq
    rw [Draft.resolveAll] at hresolve
    split at hresolve
    · cases hresolve
    · rename_i d₁ hr
      obtain ⟨s, hget, hkind, hvalue, rfl⟩ := bound_of_resolve hr
      obtain ⟨references, journal, hrefs⟩ := h
      have hget' : ({ d with references := references, journal := journal } : Draft).symbols.get?
          q.name = some s := by
        rw [hname]
        exact hget
      rw [Draft.resolveAll, resolve_of_bound hget' hkind hvalue, hname, haddress]
      refine ih ?_ hqs hresolve
      exact .intro references _ hrefs

theorem Alike.program (h : d.Alike e) : e.program = d.program := by
  obtain ⟨references, journal, _⟩ := h
  rfl

theorem Alike.finish (h : d.Alike e) (hfinish : d.finish.result = .ok p) :
    e.finish.result = .ok p := by
  obtain ⟨d', hresolve, hspace, rfl⟩ := finish_ok hfinish
  have hplaces : e.references.toList.map Reference.place =
      d.references.toList.map Reference.place := by
    obtain ⟨references, journal, hplaces⟩ := h
    exact hplaces
  obtain ⟨e', hresolve', halike⟩ := h.resolveAll hplaces hresolve
  have hfull : e'.isFull = false := by
    rw [halike.isFull]
    simpa [Draft.isFull] using hspace
  simp [Draft.finish, hresolve', hfull, halike.program]

end Draft

end WordMachine.Assembly
