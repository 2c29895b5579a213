import WordMachine.Proofs.Assembly.Inlining
import WordMachine.Proofs.Assembly.Lockstep
import WordMachine.Proofs.Assembly.Recast

/-!
# Spacing

Blanks and comments within the lines do not matter at all. Lines without a field matter for where an
error is said to be, and for whether space runs out before or at the end of the source, but neither
for whether there is a program nor for which.
-/

namespace WordMachine.Assembly

def everyLine (_ : List String) : Bool := true

def hasField (fields : List String) : Bool := !fields.isEmpty

variable {limit levels number : Nat} {inMacro : Option String} {line line' : String}
  {lines lines' rest rest' : List String} {d d' d₁ e : Draft} {here : Location} {vs : List Visit}

theorem fieldsOf_everyLine (lines : List String) : fieldsOf everyLine lines = lines.map tokenize :=
  List.filter_eq_self.mpr fun _ _ => rfl

theorem hasField_of_closes {fields : List String} (h : closes fields = true) :
    hasField fields = true := by
  cases fields with
  | nil => contradiction
  | cons => rfl

theorem fieldsOf_everyLine_iff : fieldsOf everyLine lines = fieldsOf everyLine lines' ↔
    List.Forall₂ (fun l l' => tokenize l = tokenize l') lines lines' := by
  rw [fieldsOf_everyLine, fieldsOf_everyLine, ← List.forall₂_eq_eq_eq, List.forall₂_map_left_iff,
    List.forall₂_map_right_iff]

abbrev Advance.Recast : Advance → Advance → Prop :=
  Advance.Corresponds (Draft.Recast everyLine) (fun l l' => tokenize l = tokenize l') id

namespace Draft.Recast

theorem capture (h : d.Recast everyLine e) (here : Location) (name : String)
    (hrest : fieldsOf everyLine rest = fieldsOf everyLine rest') :
    Corresponds Eq Advance.Recast (d.capture here name rest) (e.capture here name rest') := by
  unfold Draft.capture
  split
  · exact .error (h.failure here _).symm
  · have hparts := captureBody_of_fieldsOf hrest fun _ _ => rfl
    generalize captureBody rest = parts, captureBody rest' = parts' at hparts
    cases hparts with
    | none => exact .error (h.failure here _).symm
    | @some x y hparts =>
      obtain ⟨body, after⟩ := x
      obtain ⟨body', after'⟩ := y
      have hlength : body.length = body'.length := by
        simpa [fieldsOf_everyLine] using congrArg List.length hparts.1
      have hnote := h.note (.captured name body.length)
      have hcontains := hnote.contains_macro name
      simp only [← hlength]
      cases hname : (d.note (.captured name body.length)).macros.contains name with
      | true =>
        rw [MacroTable.define_of_taken body hname,
          MacroTable.define_of_taken body' (hcontains.trans hname)]
        exact .error (hnote.failure here _).symm
      | false =>
        rw [MacroTable.define_of_free body hname,
          MacroTable.define_of_free body' (hcontains.trans hname)]
        exact .ok (.next (hnote.insertMacro name hparts.1) _)

theorem obey (h : d.Recast everyLine e) (here : Location) (s : Statement)
    (hrest : fieldsOf everyLine rest = fieldsOf everyLine rest') :
    Corresponds Eq Advance.Recast (d.obey here s rest) (e.obey here s rest') := by
  by_cases hmacro : ∃ name, s = .beginMacro name
  · obtain ⟨name, rfl⟩ := hmacro
    exact h.capture here name hrest
  · have heffect := h.effectOf s
    rw [obey_of_ne (not_exists.mp hmacro), obey_of_ne (not_exists.mp hmacro)]
    generalize d.effectOf s = x, e.effectOf s = x' at heffect
    cases heffect with
    | error hcause =>
      obtain rfl := hcause
      exact .error (h.failure here _).symm
    | @ok f _ hf =>
      have happly := h.apply here s hf
      cases hf with
      | expand name hbody => exact .ok (.expand h name (fieldsOf_everyLine_iff.mp hbody))
      | same =>
        cases f with
        | expand name body => exact .ok (.expand h name (List.forall₂_same.mpr fun _ _ => rfl))
        | _ => exact .ok (.next happly 0)

theorem advance (h : d.Recast everyLine e) (here : Location) (hline : tokenize line = tokenize line')
    (hrest : fieldsOf everyLine rest = fieldsOf everyLine rest') :
    Corresponds Eq Advance.Recast (d.advance here line rest) (e.advance here line' rest') := by
  unfold Draft.advance
  rw [h.isFull, hline]
  split
  · exact .error (h.failure here _).symm
  · cases Statement.ofFields (tokenize line') with
    | error cause => exact .error (h.failure here _).symm
    | ok s => exact h.obey here s hrest

theorem lockstep (limit : Nat) : Lockstep limit Eq (Draft.Recast everyLine)
    (fun l l' => tokenize l = tokenize l') id where
  advance := by
    intro d d' line line' rest rest' number inMacro h hline hrest
    rw [Option.map_id]
    exact h.advance _ hline (fieldsOf_everyLine_iff.mpr hrest)
  expanding name depth h := h.note _
  tooDeep number inMacro name h := by
    rw [Option.map_id]
    exact (h.failure _ _).symm

end Draft.Recast

theorem assembleSource_of_map_tokenize {config : Config}
    (h : lines.map tokenize = lines'.map tokenize) :
    assembleSource config lines = assembleSource config lines' := by
  rw [← fieldsOf_everyLine, ← fieldsOf_everyLine, fieldsOf_everyLine_iff] at h
  have hpass : Corresponds Eq (Draft.Recast everyLine) (pass config lines) (pass config lines') :=
    (Draft.Recast.lockstep config.maxMacroDepth).corresponds (.refl _ _) h
  rw [assembleSource_eq, assembleSource_eq]
  generalize pass config lines = x, pass config lines' = x' at hpass
  cases hpass with
  | error hf => rw [hf]
  | ok hd => exact hd.finish.symm

/-- The drafts differ in the texts of their macros, their journals and the locations of their
references. -/
def Draft.Respaced (d e : Draft) : Prop := ∃ m, d.Recast hasField m ∧ m.Alike e

theorem drop_of_captureBody {body after : List String}
    (h : captureBody lines = some (body, after)) : lines.drop (body.length + 1) = after := by
  obtain ⟨close, rfl, -, -⟩ := eq_of_captureBody h
  rw [← List.drop_drop, List.drop_left' rfl]
  rfl

namespace Draft.Respaced

theorem isFull (h : d.Respaced e) : e.isFull = d.isFull := by
  obtain ⟨m, hrecast, halike⟩ := h
  exact halike.isFull.trans hrecast.isFull

theorem note (h : d.Respaced e) (entry entry' : Entry) :
    (d.note entry).Respaced (e.note entry') := by
  obtain ⟨m, hrecast, halike⟩ := h
  exact ⟨m.note entry, hrecast.note entry, (halike.note _).note_right _⟩

theorem advance_next {skipped : Nat} (h : d.Respaced e)
    (hadvance : d.advance here line rest = .ok (.next d₁ skipped)) (there : Location)
    (hscope : there.inMacro = here.inMacro) (hline : tokenize line = tokenize line')
    (hrest : fieldsOf hasField rest = fieldsOf hasField rest') :
    ∃ e₁ skipped', e.advance there line' rest' = .ok (.next e₁ skipped') ∧ d₁.Respaced e₁ ∧
      fieldsOf hasField (rest.drop skipped) = fieldsOf hasField (rest'.drop skipped') := by
  have hfull := h.isFull
  obtain ⟨m, hrecast, halike⟩ := h
  cases advances_of_advance hadvance with
  | @capture name body after hstatement hspace houter hbody hfree =>
    have hparts := captureBody_of_fieldsOf hrest fun _ => hasField_of_closes
    rw [hbody] at hparts
    generalize hbody' : captureBody rest' = parts' at hparts
    cases hparts with
    | @some _ parts' hparts =>
      obtain ⟨body', after'⟩ := parts'
      rw [hline] at hstatement
      rw [← hfull] at hspace
      rw [← hrecast.contains_macro, ← halike.macros] at hfree
      refine ⟨_, _, advance_of_advances
        (.capture hstatement hspace (hscope.trans houter) hbody' hfree), ?_, ?_⟩
      · exact ⟨_, (hrecast.note _).insertMacro name hparts.1,
          ((halike.note _).note_right _).insertMacro⟩
      · rw [drop_of_captureBody hbody, drop_of_captureBody hbody']
        exact hparts.2
  | @effect s f hstatement hspace hs heffect hf =>
    obtain ⟨f', heffect', hff⟩ := (hrecast.effectOf s).of_ok heffect
    cases hff with
    | expand name => exact absurd rfl (hf name _)
    | same =>
      rw [hline] at hstatement
      rw [← hfull] at hspace
      rw [← halike.effectOf] at heffect'
      refine ⟨_, 0, advance_of_advances (.effect hstatement hspace hs heffect' hf), ?_, hrest⟩
      exact ⟨_, hrecast.apply here s (.same f), halike.apply here there s f⟩

theorem advance_expand {name : String} {body : List String} (h : d.Respaced e)
    (hadvance : d.advance here line rest = .ok (.expand d₁ name body)) (there : Location)
    (hline : tokenize line = tokenize line') (rest' : List String) : d₁ = d ∧ ∃ body',
      e.advance there line' rest' = .ok (.expand e name body') ∧
        fieldsOf hasField body = fieldsOf hasField body' := by
  have hfull := h.isFull
  obtain ⟨m, hrecast, halike⟩ := h
  cases advances_of_advance hadvance with
  | @expand s _ _ hstatement hspace heffect =>
    obtain ⟨f', heffect', hff⟩ := (hrecast.effectOf s).of_ok heffect
    rw [hline] at hstatement
    rw [← hfull] at hspace
    rw [← halike.effectOf] at heffect'
    refine ⟨rfl, ?_⟩
    cases hff with
    | same => exact ⟨body, advance_of_advances (.expand hstatement hspace heffect'), rfl⟩
    | expand _ hbody => exact ⟨_, advance_of_advances (.expand hstatement hspace heffect'), hbody⟩

end Draft.Respaced

theorem advance_of_blank (hspace : d.isFull = false) (hline : tokenize line = []) :
    d.advance here line rest = .ok (.next d 0) := by
  have hstatement : Statement.ofFields (tokenize line) = .ok .blank := by rw [hline]; rfl
  exact Draft.advance_of_advances (.effect hstatement hspace nofun rfl nofun)

theorem exists_append_of_fieldsOf (hfield : hasField (tokenize line) = true)
    (h : fieldsOf hasField (line :: rest) = fieldsOf hasField lines') :
    ∃ blanks line' rest', lines' = blanks ++ line' :: rest' ∧
      (∀ l ∈ blanks, tokenize l = []) ∧ tokenize line = tokenize line' ∧
        fieldsOf hasField rest = fieldsOf hasField rest' := by
  rw [fieldsOf_cons_of_pos hfield] at h
  obtain ⟨before, after, hsplit, hbefore, -, hafter⟩ := List.filter_eq_cons_iff.mp h.symm
  obtain ⟨blanks, lines', rfl, rfl, hlines⟩ := List.map_eq_append_iff.mp hsplit
  obtain ⟨line', rest', rfl, hline, rfl⟩ := List.map_eq_cons_iff.mp hlines
  refine ⟨blanks, line', rest', rfl, ?_, hline.symm, hafter.symm⟩
  intro l hl
  simpa [hasField] using hbefore _ (List.mem_map_of_mem hl)

theorem Trace.isFull_eq_false (h : Trace d vs d') (hspace : d'.isFull = false) :
    d.isFull = false := by
  have hused := h.used
  have hdata := h.data_le
  simp only [Draft.isFull, decide_eq_false_iff_not] at hspace ⊢
  omega

namespace Passes

theorem blanks {blanks : List String} (hblanks : ∀ l ∈ blanks, tokenize l = [])
    (hspace : d.isFull = false)
    (h : Passes limit levels inMacro (number + blanks.length) lines d vs d') :
    ∃ ws, Passes limit levels inMacro number (blanks ++ lines) d ws d' := by
  induction blanks generalizing number with
  | nil => exact ⟨vs, h⟩
  | cons line blanks ih =>
    rw [List.forall_mem_cons] at hblanks
    have hnumber : number + (line :: blanks).length = number + 1 + 0 + blanks.length := by
      rw [List.length_cons]
      omega
    rw [hnumber] at h
    obtain ⟨ws, hws⟩ := ih hblanks.2 h
    exact ⟨_, .next (advance_of_blank hspace hblanks.1) hws⟩

/-- A pass that leaves space goes through as well with other lines without a field. -/
theorem respaced (h : Passes limit levels inMacro number lines d vs d')
    (hspace : d'.isFull = false) (hsim : d.Respaced e)
    (hlines : fieldsOf hasField lines = fieldsOf hasField lines') (number' : Nat) :
    ∃ ws e', Passes limit levels inMacro number' lines' e ws e' ∧ d'.Respaced e' := by
  induction h generalizing e lines' number' with
  | done =>
    have hblanks : ∀ l ∈ lines', tokenize l = [] := by
      intro l hl
      have hnone := List.filter_eq_nil_iff.mp hlines.symm _ (List.mem_map_of_mem hl)
      simpa [hasField] using hnone
    obtain ⟨ws, hws⟩ := blanks hblanks (hsim.isFull.trans hspace) .done
    rw [List.append_nil] at hws
    exact ⟨ws, e, hws, hsim⟩
  | @next levels inMacro number line rest d d₁ d₂ skipped vs hadvance tail ih =>
    have hroom := (Trace.of_passes (.next hadvance tail)).isFull_eq_false hspace
    by_cases hfield : hasField (tokenize line) = true
    · obtain ⟨before, line', rest', rfl, hbefore, hline, hrest⟩ :=
        exists_append_of_fieldsOf hfield hlines
      obtain ⟨e₁, skipped', hadvance', hsim₁, hdrop⟩ :=
        hsim.advance_next hadvance ⟨number' + before.length, inMacro⟩ rfl hline hrest
      obtain ⟨ws, e₂, hws, hsim₂⟩ := ih hspace hsim₁ hdrop (number' + before.length + 1 + skipped')
      obtain ⟨ws', hws'⟩ := blanks hbefore (hsim.isFull.trans hroom) (.next hadvance' hws)
      exact ⟨ws', e₂, hws', hsim₂⟩
    · -- a line without a field leads on to the next, and the draft stays as it is
      have hblank : tokenize line = [] := by simpa [hasField] using hfield
      have hstep := hadvance.symm.trans (advance_of_blank hroom hblank)
      obtain ⟨rfl, rfl⟩ := Advance.next.inj (Except.ok.inj hstep)
      rw [fieldsOf_cons_of_neg hfield] at hlines
      exact ih hspace hsim hlines number'
  | @expand levels inMacro number line rest name body d d₀ d₁ d₂ vs ws hadvance inner tail ihinner
      ihtail =>
    have hroom := (Trace.of_passes (.expand hadvance inner tail)).isFull_eq_false hspace
    have hfield : hasField (tokenize line) = true := by
      by_contra hnone
      have hblank : tokenize line = [] := by simpa [hasField] using hnone
      rw [advance_of_blank hroom hblank] at hadvance
      cases hadvance
    obtain ⟨before, line', rest', rfl, hbefore, hline, hrest⟩ :=
      exists_append_of_fieldsOf hfield hlines
    obtain ⟨rfl, body', hadvance', hbody⟩ :=
      hsim.advance_expand hadvance ⟨number' + before.length, inMacro⟩ hline rest'
    have hinside := (Trace.of_passes tail).isFull_eq_false hspace
    obtain ⟨us, e₁, hus, hsim₁⟩ := ihinner hinside (hsim.note _ (.expanding name (limit - levels)))
      hbody 1
    obtain ⟨us', e₂, hus', hsim₂⟩ := ihtail hspace hsim₁ hrest (number' + before.length + 1)
    obtain ⟨ws', hws'⟩ := blanks hbefore (hsim.isFull.trans hroom) (.expand hadvance' hus hus')
    exact ⟨ws', e₂, hws', hsim₂⟩

end Passes

theorem assembleSource_of_fieldsOf {config : Config} {p : Program}
    (hlines : fieldsOf hasField lines = fieldsOf hasField lines')
    (h : (assembleSource config lines).result = .ok p) :
    (assembleSource config lines').result = .ok p := by
  obtain ⟨d, _, hpass, _, hspace, _⟩ := assembleSource_ok h
  have hroom : d.isFull = false := by simpa [Draft.isFull] using hspace
  have hstart : (Draft.empty config.size).Respaced (Draft.empty config.size) :=
    ⟨_, .refl _ _, .refl _⟩
  obtain ⟨ws, e, hws, m, hrecast, halike⟩ :=
    (passes_of_assembleLines hpass).respaced hroom hstart hlines 1
  have hpass' : pass config lines' = .ok e := assembleLines_of_passes hws
  rw [assembleSource_eq, hpass] at h
  rw [assembleSource_eq, hpass']
  refine halike.finish ?_
  rw [hrecast.finish]
  exact h

/-- Sources whose lines have the same fields, one by one, are assembled alike, with the same errors
at the same places. If they are the same only after lines without a field are left out, anywhere,
then there is a program for both or for neither, and it is the same. -/
theorem spacing_immaterial (config : Config) (lines lines' : List String) :
    (lines.map tokenize = lines'.map tokenize →
      assembleSource config lines = assembleSource config lines') ∧
    ((lines.map tokenize).filter (!·.isEmpty) = (lines'.map tokenize).filter (!·.isEmpty) →
      ∀ p, (assembleSource config lines).result = .ok p ↔
        (assembleSource config lines').result = .ok p) :=
  ⟨assembleSource_of_map_tokenize,
    fun h _ => ⟨assembleSource_of_fieldsOf h, assembleSource_of_fieldsOf h.symm⟩⟩

theorem spacing_immaterial_spread : ∃ p, p.codeWords = 2 ∧
    (assembleSource .least ["macro bump", "add $1", ".end", "bump", "nop"]).result = .ok p ∧
    (assembleSource .least ["macro bump", " add  $1", ".end", "bump ; once", "nop"]).result =
      .ok p ∧
    (assembleSource .least ["macro bump", "", "add $1", "; once", ".end", "bump", "nop"]).result =
      .ok p := by
  have hwords : (assembleSource .least
      ["macro bump", "add $1", ".end", "bump", "nop"]).result.toOption.map (·.codeWords) =
        some 2 := by
    cbv
  obtain ⟨p, hresult, hcode⟩ := exists_ok hwords
  have hsame := (spacing_immaterial .least ["macro bump", "add $1", ".end", "bump", "nop"]
    ["macro bump", " add  $1", ".end", "bump ; once", "nop"]).1 (by cbv)
  have hiff := (spacing_immaterial .least ["macro bump", "add $1", ".end", "bump", "nop"]
    ["macro bump", "", "add $1", "; once", ".end", "bump", "nop"]).2 (by cbv)
  exact ⟨p, hcode, hresult, hsame ▸ hresult, (hiff p).mp hresult⟩

end WordMachine.Assembly
