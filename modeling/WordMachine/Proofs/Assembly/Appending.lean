import WordMachine.Proofs.Assembly.Inlining
import WordMachine.Proofs.Assembly.Locations

/-!
# Lines appended to a source

A line looks ahead only for the end of a macro body. So a pass that has failed for another cause
than a body without an end fails in the same way whatever lines are appended, and a pass that has
come to its end goes on from there.
-/

namespace WordMachine.Assembly

variable {limit levels number : Nat} {inMacro : Option String} {line : String}
  {lines rest : List String} {here : Location} {d d₁ : Draft} {vs : List Visit} {f : Failure}

theorem captureBody_append_right {body after : List String}
    (h : captureBody rest = some (body, after)) (more : List String) :
    captureBody (rest ++ more) = some (body, after ++ more) := by
  obtain ⟨close, rfl, hclose, hopen⟩ := eq_of_captureBody h
  rw [List.append_assoc, List.cons_append]
  exact captureBody_append hopen hclose

theorem advance_error_append (h : d.advance here line rest = .error f)
    (hclosed : ∀ name, f.error.cause ≠ .unterminatedMacro name) (more : List String) :
    d.advance here line (rest ++ more) = .error f := by
  refine Draft.advance_of_refuses ?_
  cases Draft.refuses_of_advance h with
  | full hfull => exact .full hfull
  | unread hspace hline => exact .unread hspace hline
  | nested hspace hline hinner => exact .nested hspace hline hinner
  | unterminated => exact absurd rfl (hclosed _)
  | redefined hspace hline houter hbody htaken =>
    exact .redefined hspace hline houter (captureBody_append_right hbody more) htaken
  | blamed hspace hline hs heffect => exact .blamed hspace hline hs heffect

theorem advance_next_append {skipped : Nat}
    (h : d.advance here line rest = .ok (.next d₁ skipped)) (more : List String) :
    d.advance here line (rest ++ more) = .ok (.next d₁ skipped) ∧
      (rest ++ more).drop skipped = rest.drop skipped ++ more := by
  obtain ⟨hskipped, hrest⟩ := advance_next_rest h
  have hline := hrest (rest.drop skipped ++ more)
  rw [← List.append_assoc, List.take_append_drop] at hline
  exact ⟨hline, List.drop_append_of_le_length hskipped⟩

theorem assembleLines_append_of_error
    (h : assembleLines limit levels inMacro number lines d = .error f)
    (hclosed : ∀ name, f.error.cause ≠ .unterminatedMacro name) (more : List String) :
    assembleLines limit levels inMacro number (lines ++ more) d = .error f := by
  fun_induction assembleLines limit levels inMacro number lines d
  case case1 => contradiction
  case case2 f' hadvance =>
    obtain rfl := Except.error.inj h
    rw [List.cons_append, assembleLines_of_error (advance_error_append hadvance hclosed more)]
  case case3 hadvance ih =>
    obtain ⟨hadvance', hdrop⟩ := advance_next_append hadvance more
    rw [List.cons_append, assembleLines_of_next hadvance', hdrop, ih h]
  case case4 rest here d' name body hadvance =>
    have hadvance' := advance_expand_rest hadvance (rest ++ more)
    rw [List.cons_append, assembleLines_of_tooDeep hadvance', h]
  case case5 rest here d' name body hadvance levels d'' f' hbody ih =>
    have hadvance' := advance_expand_rest hadvance (rest ++ more)
    rw [List.cons_append, assembleLines_of_expand_error hadvance' hbody, h]
  case case6 rest here d' name body hadvance levels d'' d₃ hbody ihbody ihrest =>
    have hadvance' := advance_expand_rest hadvance (rest ++ more)
    rw [List.cons_append, assembleLines_of_expand hadvance' hbody, ihrest h]

theorem Passes.assembleLines_append (h : Passes limit levels inMacro number lines d vs d₁)
    (more : List String) : assembleLines limit levels inMacro number (lines ++ more) d =
      assembleLines limit levels inMacro (number + lines.length) more d₁ := by
  induction h with
  | done => rfl
  | @next levels inMacro number line rest d d₁ d₂ skipped vs hline tail ih =>
    obtain ⟨hskipped, _⟩ := advance_next_rest hline
    obtain ⟨hline', hdrop⟩ := advance_next_append hline more
    have hnumber : number + (line :: rest).length =
        number + 1 + skipped + (rest.drop skipped).length := by
      rw [List.length_cons, List.length_drop]
      omega
    rw [List.cons_append, assembleLines_of_next hline', hdrop, ih, hnumber]
  | @expand levels inMacro number line rest name body d d₀ d₁ d₂ vs ws hline inner tail _ ih =>
    have hline' := advance_expand_rest hline (rest ++ more)
    have hnumber : number + (line :: rest).length = number + 1 + rest.length := by
      rw [List.length_cons]
      omega
    rw [List.cons_append, assembleLines_of_expand hline' (assembleLines_of_passes inner), ih,
      hnumber]

theorem le_of_assembleLines_error (h : assembleLines limit levels none number lines d = .error f)
    {l : Location} (hl : f.error.location = some l) (houter : l.inMacro = none) :
    number ≤ l.line := by
  obtain ⟨vs, v, hvisits, _, hstop⟩ := exists_stop h
  have hmem : v ∈ visits limit levels none number lines d := by
    rw [hvisits]
    exact List.mem_append_right _ List.mem_cons_self
  obtain rfl := Option.some.inj (hl.symm.trans hstop.fits.1)
  rcases stands_of_mem_visits hmem with ⟨i, hhere, _⟩ | ⟨_, _, _, _, _, i, hhere, _⟩
  · rw [hhere]
    exact Nat.le_add_right number i
  · rw [hhere] at houter
    contradiction

/-- What is wrong with a source stays wrong in the same way when lines are appended, but for a macro
body that has no end yet; and a source without an error in its lines gets none in them. -/
theorem first_error_stable (config : Config) (lines more : List String) :
    (∀ f, pass config lines = .error f →
      (∀ name, f.error.cause ≠ .unterminatedMacro name) →
        assembleSource config (lines ++ more) = ⟨.error f.error, f.journal⟩) ∧
    ∀ d, pass config lines = .ok d → ∀ f, pass config (lines ++ more) = .error f →
      ∀ l, f.error.location = some l → l.inMacro = none → lines.length < l.line := by
  constructor
  · intro f hpass hclosed
    have hpass' : pass config (lines ++ more) = .error f :=
      assembleLines_append_of_error hpass hclosed more
    rw [assembleSource_eq, hpass']
  · intro d hpass f hpass' l hl houter
    have hmore : assembleLines config.maxMacroDepth config.maxMacroDepth none (1 + lines.length)
        more d = .error f :=
      ((passes_of_assembleLines hpass).assembleLines_append more).symm.trans hpass'
    have hline := le_of_assembleLines_error hmore hl houter
    omega

/-- The macro that is opened behind the error has no end. The name that is taken was defined in the
first line, but the error is that of the third. -/
theorem first_error_stable_open :
    (assembleSource .least (["nop", "hlt"] ++ ["macro open"])).result =
      .error ⟨.unknownCommand "hlt", some ⟨2, none⟩⟩ ∧
    ∃ d f, pass .least ["label top", "nop"] = .ok d ∧
      pass .least (["label top", "nop"] ++ ["label top"]) = .error f ∧
      f.error = ⟨.duplicateDefinition "top", some ⟨3, none⟩⟩ ∧
      ["label top", "nop"].length < 3 := by
  have hfail : pass .least ["nop", "hlt"] =
      .error ⟨⟨.unknownCommand "hlt", some ⟨2, none⟩⟩, #[.emitted 0 0 (.single "nop")]⟩ := by cbv
  have hok : (pass .least ["label top", "nop"]).toOption.map Draft.used = some 1 := by cbv
  have htaken : pass .least (["label top", "nop"] ++ ["label top"]) =
      .error ⟨⟨.duplicateDefinition "top", some ⟨3, none⟩⟩,
        #[.defined ⟨"top", .label, 0⟩, .emitted 0 0 (.single "nop")]⟩ := by cbv
  obtain ⟨d, hd, _⟩ := exists_ok hok
  have hstable := (first_error_stable .least ["nop", "hlt"] ["macro open"]).1 _ hfail (by simp)
  have hlater := (first_error_stable .least ["label top", "nop"] ["label top"]).2 d hd _ htaken _
    rfl rfl
  exact ⟨by rw [hstable], d, _, hd, htaken, rfl, hlater⟩

end WordMachine.Assembly
