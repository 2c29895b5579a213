import WordMachine.Proofs.Assembly.Bounds

/-!
# Stored words

The word that is stored last in a cell stays there to the end of the pass, whatever the lines behind
it do elsewhere. Operands are filled in after the pass, in whatever their cells hold by then: so a
word that is stored over an instruction whose label was not known yet keeps its opcode only.
-/

namespace WordMachine.Assembly

/-- Of the words that the visits write to the cell, the last one is stored there. -/
def StoredLast (vs : List Visit) (a : Nat) (w : Word) : Prop :=
  ∃ before v after, vs = before ++ v :: after ∧ v.stored? = some (a, w) ∧
    ∀ u ∈ after, ¬u.Writes a

def Visit.target? (v : Visit) : Option Nat := (v.emission?.or v.stored?).map Prod.fst

variable {d d' : Draft} {v u : Visit} {vs : List Visit} {a i : Nat} {w value : Word}
  {config : Config} {lines : List String} {p : Program} {r : Reference}

theorem Visit.Writes.target? (h : u.Writes a) : u.target? = some a := by
  obtain ⟨w, hw | hw⟩ := h
  · simp [Visit.target?, hw]
  · have hemission : u.emission? = none := by
      unfold stored? at hw
      split at hw
      · rename_i heffect
        simp [emission?, word?, heffect]
      · contradiction
    simp [Visit.target?, hemission, hw]

theorem storedLast_of_getElem? (h : vs[i]?.bind Visit.stored? = some (a, w))
    (hafter : a ∉ (vs.drop (i + 1)).filterMap Visit.target?) : StoredLast vs a w := by
  obtain ⟨v, hv, hstored⟩ := Option.bind_eq_some_iff.mp h
  obtain ⟨hi, rfl⟩ := List.getElem?_eq_some_iff.mp hv
  refine ⟨vs.take i, vs[i], vs.drop (i + 1), ?_, hstored, ?_⟩
  · rw [List.getElem_cons_drop, List.take_append_drop]
  · intro u hu hwrites
    exact hafter (List.mem_filterMap.mpr ⟨u, hu, hwrites.target?⟩)

theorem Visit.Leads.getElem?_stored (h : v.Leads d) (hstored : v.stored? = some (a, w))
    (ha : a < v.before.cells.size) : d.cells[a]? = some w := by
  obtain ⟨s, e, _, _, heffect, _, macros, journal, rfl⟩ := h.cases
  rw [stored?, heffect] at hstored
  cases e with
  | store address w' =>
    obtain ⟨rfl, rfl⟩ := Prod.mk.inj (Option.some.inj hstored)
    simp [Draft.apply, Draft.store, ha]
  | _ => simp at hstored

theorem Trace.getElem?_storedLast (h : Trace d vs d') (hsound : d.Sound)
    (hlast : StoredLast vs a w) : d'.cells[a]? = some w := by
  obtain ⟨before, v, after, rfl, hstored, hafter⟩ := hlast
  obtain ⟨d₀, hbefore, hrest⟩ := h.split
  cases hrest with
  | cons step tail =>
    have ha : a < v.before.cells.size := by
      rw [(hbefore.sound hsound).length_cells]
      exact Visit.stored_lt hstored
    rw [← step.getElem?_stored hstored ha]
    exact tail.getElem?_frame (fun u hu w' hw => hafter u hu ⟨w', .inl hw⟩)
      (fun u hu w' hw => hafter u hu ⟨w', .inr hw⟩)

theorem split_operand (w : Word) : (w &&& ~~~operandMask) ||| (w &&& operandMask) = w := by
  apply UInt16.toBitVec_inj.1
  ext i hi
  simp only [UInt16.toBitVec_and, UInt16.toBitVec_or, UInt16.toBitVec_not, BitVec.getElem_and,
    BitVec.getElem_or, BitVec.getElem_not]
  cases w.toBitVec[i] <;> cases operandMask.toBitVec[i] <;> simp

theorem operand_of_patch (w : Word) (h : value ≤ operandMask) :
    ((w &&& ~~~operandMask) ||| value) &&& operandMask = value := by
  have hmask : ~~~operandMask &&& operandMask = 0 := by decide
  rw [Word.or_and, UInt16.and_assoc, hmask, UInt16.and_zero, UInt16.zero_or,
    and_operandMask_of_le h]

theorem patch_eq_self_iff (w : Word) (h : value ≤ operandMask) :
    (w &&& ~~~operandMask) ||| value = w ↔ value = w &&& operandMask := by
  constructor
  · intro heq
    rw [← operand_of_patch w h, heq]
  · rintro rfl
    exact split_operand w

theorem stored_of_unreferenced (h : (assembleSource config lines).result = .ok p)
    (hlast : StoredLast (visitsOf config lines) a w)
    (hfree : ∀ u ∈ visitsOf config lines, ∀ r, u.forward? = some r → r.address ≠ a) :
    p.image.words[a]? = some w := by
  obtain ⟨d, d', hpass, hresolve, _, rfl⟩ := assembleSource_ok h
  -- the word is in its cell at the end of the pass, and no operand is filled in there
  have hcell := (Trace.of_pass hpass).getElem?_storedLast (Draft.sound_empty config.size) hlast
  refine (Draft.getElem?_resolveAll_of_notMem hresolve ?_).trans hcell
  intro r hr
  rw [references_of_pass hpass] at hr
  obtain ⟨u, hu, hforward⟩ := List.mem_filterMap.mp hr
  exact hfree u hu r hforward

theorem stored_of_referenced (h : (assembleSource config lines).result = .ok p)
    (hlast : StoredLast (visitsOf config lines) a w) (hu : u ∈ visitsOf config lines)
    (hforward : u.forward? = some r) (ha : r.address = a) :
    ∃ s, p.symbols.get? r.name = some s ∧ s.kind = .label ∧ s.value ≤ operandMask ∧
      p.image.words[a]? = some ((w &&& ~~~operandMask) ||| s.value) := by
  obtain ⟨d, d', hpass, hresolve, _, rfl⟩ := assembleSource_ok h
  have trace := Trace.of_pass hpass
  have hempty := Draft.sound_empty config.size
  have hcell := trace.getElem?_storedLast hempty hlast
  have hr : r ∈ d.references.toList := by
    rw [references_of_pass hpass]
    exact List.mem_filterMap.mpr ⟨u, hu, hforward⟩
  obtain ⟨s, hget, hkind, hvalue⟩ := Draft.bound_of_resolveAll hresolve r hr
  have hpatched := Draft.getElem?_resolveAll hresolve (trace.sound hempty).ordered hr hget
  rw [ha, hcell] at hpatched
  refine ⟨s, ?_, hkind, hvalue, hpatched⟩
  rw [Draft.program, (Draft.resolveAll_frame hresolve).1]
  exact hget

/-- A word that is stored last is in the image, unless an operand that was still open at its cell
is filled in there; then it is in the image if it has that very operand already. -/
theorem image_of_storedLast (h : (assembleSource config lines).result = .ok p)
    (hlast : StoredLast (visitsOf config lines) a w) :
    (p.image.words[a]? = some w ↔ ∀ u ∈ visitsOf config lines, ∀ r, u.forward? = some r →
      r.address = a → ∃ s, p.symbols.get? r.name = some s ∧ s.value = w &&& operandMask) ∧
    ∀ u ∈ visitsOf config lines, ∀ r, u.forward? = some r → r.address = a →
      ∃ s, p.symbols.get? r.name = some s ∧ s.kind = .label ∧ s.value ≤ operandMask ∧
        p.image.words[a]? = some ((w &&& ~~~operandMask) ||| s.value) := by
  refine ⟨⟨?_, ?_⟩, fun u hu r => stored_of_referenced h hlast hu⟩
  · intro himage u hu r hforward ha
    obtain ⟨s, hget, _, hvalue, hword⟩ := stored_of_referenced h hlast hu hforward ha
    rw [himage] at hword
    exact ⟨s, hget, (patch_eq_self_iff w hvalue).mp (Option.some.inj hword).symm⟩
  · intro hsame
    by_cases hfree : ∀ u ∈ visitsOf config lines, ∀ r, u.forward? = some r → r.address ≠ a
    · exact stored_of_unreferenced h hlast hfree
    · push Not at hfree
      obtain ⟨u, hu, r, hforward, ha⟩ := hfree
      obtain ⟨s, hget, _, hvalue, hword⟩ := stored_of_referenced h hlast hu hforward ha
      obtain ⟨s', hget', hsame'⟩ := hsame u hu r hforward ha
      obtain rfl : s' = s := Option.some.inj (hget'.symm.trans hget)
      rw [hword, (patch_eq_self_iff w hvalue).mpr hsame']

theorem image_of_storedLast_beside : ∃ p,
    (assembleSource .least ["jump top", ".set $9 $7", "label top"]).result = .ok p ∧
      p.image.words[9]? = some 7 := by
  have hstored : (visitsOf .least ["jump top", ".set $9 $7", "label top"])[1]?.bind
      Visit.stored? = some (9, 7) := by cbv
  have hafter : ((visitsOf .least ["jump top", ".set $9 $7", "label top"]).drop 2).filterMap
      Visit.target? = [] := by cbv
  have hlast : StoredLast (visitsOf .least ["jump top", ".set $9 $7", "label top"]) 9 7 :=
    storedLast_of_getElem? hstored (by simp [hafter])
  have hforward : ((visitsOf .least ["jump top", ".set $9 $7", "label top"]).filterMap
      Visit.forward?).map Reference.address = [0] := by cbv
  have hcode : (assembleSource .least
      ["jump top", ".set $9 $7", "label top"]).result.toOption.map Program.codeWords =
        some 1 := by cbv
  obtain ⟨p, h, _⟩ := exists_ok hcode
  refine ⟨p, h, (image_of_storedLast h hlast).1.mpr ?_⟩
  intro u hu r hr haddress
  have hmem := List.mem_map_of_mem (f := Reference.address) (List.mem_filterMap.mpr ⟨u, hu, hr⟩)
  rw [hforward, haddress] at hmem
  simp at hmem

/-- The jump is still open when the word is stored over it: the image has the address of the label
in the place of the last three digits. -/
theorem storedLast_not_kept : ¬∀ (config : Config) (lines : List String) (p : Program) (a : Nat)
    (w : Word), (assembleSource config lines).result = .ok p →
      StoredLast (visitsOf config lines) a w → p.image.words[a]? = some w := by
  intro hkept
  have hstored : (visitsOf .least ["jump top", ".set $0 $1234", "label top"])[1]?.bind
      Visit.stored? = some (0, 0x1234) := by cbv
  have hafter : ((visitsOf .least ["jump top", ".set $0 $1234", "label top"]).drop 2).filterMap
      Visit.target? = [] := by cbv
  have hlast : StoredLast (visitsOf .least ["jump top", ".set $0 $1234", "label top"]) 0 0x1234 :=
    storedLast_of_getElem? hstored (by simp [hafter])
  have himage : (assembleSource .least
      ["jump top", ".set $0 $1234", "label top"]).result.toOption.map (·.image.words[0]?) =
        some (some 0x1001) := by cbv
  obtain ⟨p, h, hpatched⟩ := exists_ok himage
  have hword := (hkept _ _ p 0 0x1234 h hlast).symm.trans hpatched
  contradiction

end WordMachine.Assembly
