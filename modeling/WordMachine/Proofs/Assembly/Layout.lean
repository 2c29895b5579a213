import WordMachine.Proofs.Assembly.Resolution

/-!
# The two regions of a program

The words of a program fill its memory from address 0 upwards, and its data cells from the last
cell downwards. The two regions do not meet, although the pass compares their bounds only before
each line, and once at its end.
-/

namespace WordMachine.Assembly

structure Layout (size : MemorySize) (vs : List Visit) (p : Program) : Prop where
  code : (vs.filterMap Visit.emission?).map Prod.fst = List.range p.codeWords
  /-- A word that nothing is stored over is in the image, but for an operand filled in later. -/
  words : ∀ v ∈ vs, ∀ a w, v.emission? = some (a, w) → (∀ u ∈ vs, ∀ w', u.stored? ≠ some (a, w')) →
    ∃ x, p.image.words[a]? = some x ∧ x &&& ~~~operandMask = w &&& ~~~operandMask ∧
      (v.forward? = none → x = w)
  /-- Behind the code there are only the words that are stored there. -/
  blank : ∀ a, p.codeWords ≤ a → a < size.words → (∀ u ∈ vs, ∀ w, u.stored? ≠ some (a, w)) →
    p.image.words[a]? = some 0
  symbols : p.symbols.toList = vs.filterMap Visit.defined?
  names : (p.symbols.toList.map Symbol.name).Nodup
  /-- A label is the number of words emitted before its line. -/
  label : ∀ before v after name, vs = before ++ v :: after → v.statement? = some (.label name) →
    ∃ s, v.defined? = some s ∧ s.name = name ∧ s.kind = .label ∧
      s.value.toNat = (before.filterMap Visit.word?).length ∧ s.value.toNat ≤ p.codeWords
  dataCell : ∀ v ∈ vs, ∀ name, v.statement? = some (.dataCell name) →
    ∃ s, v.defined? = some s ∧ s.name = name ∧ s.kind = .dataCell ∧ v.cells = {s.value.toNat}
  block : ∀ v ∈ vs, ∀ count, v.statement? = some (.allocate count) →
    ∃ n, v.before.countOf count = .ok n ∧ v.cells.card = n
  kinds : ∀ v ∈ vs, ∀ s, v.defined? = some s →
    (s.kind = .label → v.statement? = some (.label s.name)) ∧
      (s.kind = .dataCell → v.statement? = some (.dataCell s.name))
  disjoint : (vs.map Visit.cells).Pairwise Disjoint
  above : ∀ v ∈ vs, ∀ a ∈ v.cells, p.codeWords < a ∧ a < size.words

variable {config : Config} {lines : List String} {d d' : Draft} {v : Visit} {vs : List Visit}
  {name count : String} {s : Symbol}

namespace Visit.Leads

theorem defined_label (h : v.Leads d) (hline : v.statement? = some (.label name)) :
    v.defined? = some ⟨name, .label, UInt16.ofNat v.before.used⟩ := by
  obtain ⟨s, e, hs, hdoes, heffect, _⟩ := h.cases
  obtain rfl := Option.some.inj (hs.symm.trans hline)
  cases hdoes with
  | label hfree => rw [defined?, heffect]

theorem defined_dataCell (h : v.Leads d) (hline : v.statement? = some (.dataCell name)) :
    v.defined? = some ⟨name, .dataCell, UInt16.ofNat v.before.data⟩ ∧
      v.cells = {v.before.data} := by
  obtain ⟨s, e, hs, hdoes, heffect, _⟩ := h.cases
  obtain rfl := Option.some.inj (hs.symm.trans hline)
  cases hdoes with
  | dataCell hfree =>
    constructor
    · rw [defined?, heffect]
    · rw [Visit.cells, heffect]

theorem cells_allocate (h : v.Leads d) (hline : v.statement? = some (.allocate count)) :
    ∃ n, v.before.countOf count = .ok n ∧ v.cells.card = n := by
  obtain ⟨s, e, hs, hdoes, heffect, _⟩ := h.cases
  obtain rfl := Option.some.inj (hs.symm.trans hline)
  cases hdoes with
  | @allocate _ n hcount hroom =>
    refine ⟨n, hcount, ?_⟩
    rw [Visit.cells, heffect, Nat.card_Ioc]
    omega

theorem statement_of_defined (h : v.Leads d) (hs : v.defined? = some s) :
    (s.kind = .label → v.statement? = some (.label s.name)) ∧
      (s.kind = .dataCell → v.statement? = some (.dataCell s.name)) := by
  obtain ⟨t, e, ht, hdoes, heffect, _⟩ := h.cases
  rw [defined?, heffect] at hs
  cases hdoes with
  | label hfree =>
    obtain rfl := Option.some.inj hs
    exact ⟨fun _ => ht, by simp⟩
  | dataCell hfree =>
    obtain rfl := Option.some.inj hs
    exact ⟨by simp, fun _ => ht⟩
  | constant _ hfree =>
    obtain rfl := Option.some.inj hs
    exact ⟨by simp, by simp⟩
  | _ => simp at hs

end Visit.Leads

theorem Trace.bounds {before after : List Visit} (h : Trace d (before ++ v :: after) d') :
    ∃ d₁, v.Leads d₁ ∧ v.before.used = d.used + (before.filterMap Visit.word?).length ∧
      v.before.used ≤ d'.used ∧ v.before.data ≤ d.data := by
  obtain ⟨d₀, hbefore, hrest⟩ := h.split
  cases hrest with
  | cons step tail =>
    have hused := step.used
    have hlater := tail.used
    exact ⟨_, step, hbefore.used, by omega, hbefore.data_le⟩

theorem label_of_visit {before after : List Visit} (h : Trace d (before ++ v :: after) d')
    (hempty : d.used = 0) (hspace : d'.used < 65536)
    (hline : v.statement? = some (.label name)) :
    ∃ s, v.defined? = some s ∧ s.name = name ∧ s.kind = .label ∧
      s.value.toNat = (before.filterMap Visit.word?).length ∧ s.value.toNat ≤ d'.used := by
  obtain ⟨d₁, step, hused, hle, _⟩ := h.bounds
  refine ⟨_, step.defined_label hline, rfl, rfl, ?_⟩
  have hvalue : (UInt16.ofNat v.before.used).toNat = v.before.used := by
    rw [UInt16.toNat_ofNat']
    exact Nat.mod_eq_of_lt (by omega)
  rw [hvalue]
  omega

theorem dataCell_of_visit (h : Trace d vs d') (hv : v ∈ vs) (hspace : d.data < 65536)
    (hline : v.statement? = some (.dataCell name)) :
    ∃ s, v.defined? = some s ∧ s.name = name ∧ s.kind = .dataCell ∧
      v.cells = {s.value.toNat} := by
  obtain ⟨before, after, rfl⟩ := List.append_of_mem hv
  obtain ⟨d₁, step, _, _, hle⟩ := h.bounds
  obtain ⟨hdefined, hcells⟩ := step.defined_dataCell hline
  refine ⟨_, hdefined, rfl, rfl, ?_⟩
  have hvalue : (UInt16.ofNat v.before.data).toNat = v.before.data := by
    rw [UInt16.toNat_ofNat']
    exact Nat.mod_eq_of_lt (by omega)
  rw [hcells, hvalue]

theorem blank_of_pass {a : Nat} (hpass : pass config lines = .ok d)
    (hresolve : Draft.resolveAll d.references.toList d = .ok d') (hused : d.used ≤ a)
    (ha : a < config.size.words)
    (hstore : ∀ u ∈ visitsOf config lines, ∀ w, u.stored? ≠ some (a, w)) :
    d'.cells[a]? = some 0 := by
  have trace := Trace.of_pass hpass
  have hsound := trace.sound (Draft.sound_empty config.size)
  have hcell : d.cells[a]? = (Draft.empty config.size).cells[a]? := by
    refine trace.getElem?_frame ?_ hstore
    intro v hv w hw
    have hrange := (trace.emission_range hv hw).2
    omega
  rw [Draft.getElem?_resolveAll_of_notMem hresolve, hcell]
  · simp [Draft.empty, ha]
  · intro r hr
    have hreferred := hsound.referred r hr
    omega

/-- Code and data keep apart, and every symbol has the place that its line gave it. -/
theorem layout_of_assembleSource {p : Program}
    (h : (assembleSource config lines).result = .ok p) :
    Layout config.size (visitsOf config lines) p := by
  obtain ⟨d, d', hpass, hresolve, hspace, rfl⟩ := assembleSource_ok h
  have trace := Trace.of_pass hpass
  have hsound := trace.sound (Draft.sound_empty config.size)
  obtain ⟨hsymbols, hused, _, _, _⟩ := Draft.resolveAll_frame hresolve
  have hcount : d.used = ((visitsOf config lines).filterMap Visit.word?).length := by
    rw [trace.used, Draft.empty, Nat.zero_add]
  have hdata : d.data < config.size.words := by
    have hlt := hsound.data_lt
    rwa [trace.size] at hlt
  have hwords := config.size.words_le
  simp only [Draft.program] at h ⊢
  constructor
  case code =>
    rw [trace.emissions, ← hcount, hused, List.range_eq_range']
    rfl
  case words =>
    intro v hv a w hw hstore
    obtain ⟨hplain, hpatched⟩ := code_of_visit h hv hw hstore
    cases hforward : v.forward? with
    | none => exact ⟨w, hplain hforward, rfl, fun _ => rfl⟩
    | some r =>
      obtain ⟨s, _, _, hvalue, hcell⟩ := hpatched r hforward
      exact ⟨_, hcell, opcode_of_patch w hvalue, by simp⟩
  case blank =>
    intro a hcode ha hstore
    exact blank_of_pass hpass hresolve (hused ▸ hcode) ha hstore
  case symbols =>
    rw [hsymbols, trace.symbols]
    rfl
  case names =>
    rw [hsymbols]
    exact hsound.coherent.nodup
  case label =>
    intro before v after name hvisits hline
    rw [hvisits] at trace
    rw [hused]
    exact label_of_visit trace rfl (by omega) hline
  case dataCell =>
    intro v hv name hline
    refine dataCell_of_visit trace hv ?_ hline
    simp only [Draft.empty]
    omega
  case block =>
    intro v hv count hline
    obtain ⟨d₁, step⟩ := trace.leads hv
    exact step.cells_allocate hline
  case kinds =>
    intro v hv s hs
    obtain ⟨d₁, step⟩ := trace.leads hv
    exact step.statement_of_defined hs
  case disjoint => exact trace.cells_disjoint
  case above =>
    intro v hv a ha
    obtain ⟨hlow, hhigh⟩ := Finset.mem_Ioc.mp (trace.cells_subset hv ha)
    have htop : (Draft.empty config.size).data = config.size.words - 1 := rfl
    change d'.used < a ∧ a < config.size.words
    omega

theorem layout_of_counter : ∃ p,
    (assembleSource .least ["variable n", "macro bump", "add $1", ".end", "bump", "label top",
      "allocate $3", "jump top"]).result = .ok p ∧
    Layout Config.least.size (visitsOf .least ["variable n", "macro bump", "add $1", ".end",
      "bump", "label top", "allocate $3", "jump top"]) p := by
  cases h : (assembleSource .least ["variable n", "macro bump", "add $1", ".end", "bump",
      "label top", "allocate $3", "jump top"]).result with
  | ok p => exact ⟨p, rfl, layout_of_assembleSource h⟩
  | error e =>
    have hsome : (assembleSource .least ["variable n", "macro bump", "add $1", ".end", "bump",
        "label top", "allocate $3", "jump top"]).result.isOk = true := by cbv
    rw [h] at hsome
    contradiction

end WordMachine.Assembly
