import WordMachine.Proofs.Assembly.Failures
import WordMachine.Proofs.Assembly.Strict

/-!
# Bounds

The cursors are compared before each line only, and this is enough: code stays below data, and so
inside the memory, whatever the lines do and however deep macros call each other. It holds at every
line that the pass comes to, whether the assembly succeeds or not.
-/

namespace WordMachine.Assembly

variable {limit levels number : Nat} {inMacro : Option String} {lines : List String}
  {d d' : Draft} {v : Visit} {e : Effect} {w : Word} {symbol : Symbol} {address count : Nat}
  {config : Config} {p : Program}

theorem Trace.keeps {P : Draft → Prop} {vs : List Visit}
    (hstep : ∀ (v : Visit) (d : Draft), v.Leads d → P v.before → P d) (h : Trace d vs d')
    (hd : P d) : P d' := by
  induction h with
  | nil => exact hd
  | cons step tail ih => exact ih (hstep _ _ step hd)

theorem before_of_visits {P : Draft → Prop}
    (hstep : ∀ (v : Visit) (d : Draft), v.Leads d → P v.before → P d) (hd : P d) :
    ∀ v ∈ visits limit levels inMacro number lines d, P v.before := by
  intro v hv
  obtain ⟨us, vs, hvisits⟩ := List.append_of_mem hv
  exact (Route.of_visits hvisits).trace.keeps hstep hd

/-- What a visit writes, lowers, makes a value of or looks up is in its range. -/
structure Visit.InBounds (size : MemorySize) (v : Visit) : Prop where
  memory : v.before.cells.size = size.words
  emitted : ∀ a w, v.emission? = some (a, w) → a < size.words
  stored : ∀ a w, v.stored? = some (a, w) → a < size.words
  label : ∀ s, v.defined? = some s → s.kind = .label → s.value.toNat = v.before.used
  dataCell : ∀ s, v.defined? = some s → s.kind = .dataCell →
    s.value.toNat = v.before.data ∧ 1 ≤ v.before.data
  reserved : ∀ count, v.effect? = some (.reserve count) → count ≤ v.before.data
  places : ∀ (name : String) (place : Nat), v.before.symbols.index[name]? = some place →
    place < v.before.symbols.entries.size

namespace Visit

theorem does_of_effect? (h : v.effect? = some e) :
    v.before.used < v.before.data ∧ ∃ s, v.before.Does s e := by
  unfold effect? at h
  split at h
  · contradiction
  · rename_i hfull
    obtain ⟨s, _, heffect⟩ := Option.bind_eq_some_iff.mp h
    refine ⟨by simpa [Draft.isFull] using hfull, s, Draft.does_of_effectOf ?_⟩
    cases hx : v.before.effectOf s with
    | error cause => simp [hx, Except.toOption] at heffect
    | ok e' =>
      rw [hx] at heffect
      exact congrArg Except.ok (Option.some.inj heffect)

theorem emission_lt (hsound : v.before.Sound) (h : v.emission? = some (address, w)) :
    address < v.before.size.words := by
  obtain ⟨w', hword, hpair⟩ := Option.map_eq_some_iff.mp h
  obtain ⟨rfl, _⟩ := Prod.mk.inj hpair
  cases heffect : v.effect? with
  | none => simp [word?, heffect] at hword
  | some e => exact (does_of_effect? heffect).1.trans hsound.data_lt

theorem stored_lt (h : v.stored? = some (address, w)) : address < v.before.size.words := by
  cases heffect : v.effect? with
  | none => simp [stored?, heffect] at h
  | some e =>
    obtain ⟨_, s, hdoes⟩ := does_of_effect? heffect
    rw [stored?, heffect] at h
    cases hdoes with
    | set htarget hinside hvalue =>
      obtain ⟨rfl, _⟩ := Prod.mk.inj (Option.some.inj h)
      exact hinside
    | _ => simp at h

theorem value_of_defined (hsound : v.before.Sound) (h : v.defined? = some symbol) :
    (symbol.kind = .label → symbol.value.toNat = v.before.used) ∧
      (symbol.kind = .dataCell →
        symbol.value.toNat = v.before.data ∧ 1 ≤ v.before.data) := by
  cases heffect : v.effect? with
  | none => simp [defined?, heffect] at h
  | some e =>
    obtain ⟨hspace, s, hdoes⟩ := does_of_effect? heffect
    have hdata : v.before.data < 65536 := hsound.data_lt.trans_le v.before.size.words_le
    rw [defined?, heffect] at h
    cases hdoes with
    | label hfree =>
      obtain rfl := Option.some.inj h
      refine ⟨fun _ => ?_, by simp⟩
      rw [UInt16.toNat_ofNat']
      exact Nat.mod_eq_of_lt (by omega)
    | dataCell hfree =>
      obtain rfl := Option.some.inj h
      refine ⟨by simp, fun _ => ⟨?_, Nat.one_le_of_lt hspace⟩⟩
      rw [UInt16.toNat_ofNat']
      exact Nat.mod_eq_of_lt (by omega)
    | constant hvalue hfree =>
      obtain rfl := Option.some.inj h
      exact ⟨by simp, by simp⟩
    | _ => simp at h

theorem reserve_le (h : v.effect? = some (.reserve count)) : count ≤ v.before.data := by
  obtain ⟨_, s, hdoes⟩ := does_of_effect? h
  cases hdoes with
  | allocate hcount hroom => exact hroom

theorem inBounds {size : MemorySize} (hsound : v.before.Sound) (hsize : v.before.size = size) :
    v.InBounds size := by
  subst hsize
  constructor
  case memory => exact hsound.length_cells
  case emitted => exact fun a w => emission_lt hsound
  case stored => exact fun a w => stored_lt
  case label => exact fun s hs => (value_of_defined hsound hs).1
  case dataCell => exact fun s hs => (value_of_defined hsound hs).2
  case reserved => exact fun count => reserve_le
  case places => exact fun name place => hsound.coherent.lt_of_index

end Visit

theorem inBounds_of_visitsOf (config : Config) (lines : List String) :
    ∀ v ∈ visitsOf config lines, v.InBounds config.size := by
  have hbefore : ∀ v ∈ visitsOf config lines, v.before.Sound ∧ v.before.size = config.size :=
    before_of_visits (P := fun d => d.Sound ∧ d.size = config.size)
      (fun v d step h => ⟨step.sound h.1, step.size.trans h.2⟩)
      ⟨Draft.sound_empty config.size, rfl⟩
  intro v hv
  obtain ⟨hsound, hsize⟩ := hbefore v hv
  exact Visit.inBounds hsound hsize

theorem slices_of_assembleSource (h : (assembleSource config lines).result = .ok p) :
    p.image.words.size = config.size.words ∧ p.listing.length = p.codeWords ∧
      ∃ n, p.image.used = some n ∧ p.codeWords ≤ n ∧ n ≤ config.size.words ∧
        p.image.savedWords.size = n := by
  obtain ⟨d, d', hpass, hresolve, _, rfl⟩ := assembleSource_ok h
  obtain ⟨hsound, hcovers⟩ := sound_of_pass hpass
  obtain ⟨_, hused, _, _, hcells⟩ := Draft.resolveAll_frame hresolve
  have hsize : d.size = config.size := (Trace.of_pass hpass).size
  have hwords : d'.cells.size = config.size.words := by
    rw [hcells, hsound.length_cells, hsize]
  have hextent : d'.extent ≤ d'.cells.size := by
    rw [Draft.extent_resolveAll hresolve, hwords, ← hsize]
    exact hcovers.extent_le
  have hcode : d'.used ≤ d'.extent := by
    rw [hused, Draft.extent_resolveAll hresolve]
    exact hcovers.used_le
  refine ⟨hwords, ?_, d'.extent, ?_, hcode, hextent.trans_eq hwords, ?_⟩
  · simp [Program.listing, Draft.program, Image.withUsed, hcode.trans hextent]
  · simp [Draft.program, Image.withUsed, hextent]
  · simp [Draft.program, Image.savedWords, Image.withUsed, hextent]

/-- No source leads the assembler out of bounds, not even one that ends in an error. -/
theorem assembly_in_bounds (config : Config) (lines : List String) :
    (∀ v ∈ visitsOf config lines, v.InBounds config.size) ∧
      (∀ d, pass config lines = .ok d → ∀ r ∈ d.references.toList, r.address < d.cells.size) ∧
      (∀ p, (assembleSource config lines).result = .ok p →
        p.image.words.size = config.size.words ∧ p.listing.length = p.codeWords ∧
          ∃ n, p.image.used = some n ∧ p.codeWords ≤ n ∧ n ≤ config.size.words ∧
            p.image.savedWords.size = n) ∧
      strictAssembleSource config lines = some (assembleSource config lines) := by
  refine ⟨inBounds_of_visitsOf config lines, ?_, fun p => slices_of_assembleSource,
    strictAssembleSource_eq config lines⟩
  intro d hpass r hr
  obtain ⟨hsound, hcovers⟩ := sound_of_pass hpass
  exact hsound.address_lt hcovers hr

/-- The word is stored in the last cell of the least memory, which a variable has. -/
theorem assembly_in_bounds_last : ∃ p,
    (assembleSource .least ["variable n", "allocate $3", "jump top", ".set n $7", "label top",
      "nop"]).result = .ok p ∧ p.listing.length = p.codeWords ∧
    ∃ v ∈ visitsOf .least ["variable n", "allocate $3", "jump top", ".set n $7", "label top",
      "nop"], v.stored? = some (15, 7) ∧ 15 < Config.least.size.words := by
  obtain ⟨hvisits, _, hprogram, _⟩ := assembly_in_bounds .least
    ["variable n", "allocate $3", "jump top", ".set n $7", "label top", "nop"]
  have hcode : (assembleSource .least ["variable n", "allocate $3", "jump top", ".set n $7",
      "label top", "nop"]).result.toOption.map Program.codeWords = some 2 := by cbv
  have hvisit : (visitsOf .least ["variable n", "allocate $3", "jump top", ".set n $7",
      "label top", "nop"])[3]?.map Visit.stored? = some (some (15, 7)) := by cbv
  obtain ⟨p, h, _⟩ := exists_ok hcode
  obtain ⟨v, hv, hstored⟩ := Option.map_eq_some_iff.mp hvisit
  have hmem := List.mem_of_getElem? hv
  exact ⟨p, h, (hprogram p h).2.1, v, hmem, hstored, (hvisits v hmem).stored 15 7 hstored⟩

end WordMachine.Assembly
