import WordMachine.Proofs.Assembly.Extent
import WordMachine.Proofs.Assembly.Records

/-!
# The log replayed

The journal tells the draft at every point of the pass: what it says was emitted and stored gives
the cells, the cursor and the extent. After the pass it only tells of the operands filled in. So
whoever has the log has the image.
-/

namespace WordMachine.Assembly

namespace Change

def apply (cells : Array Word) : Change → Array Word
  | emitted address word | stored address word => cells.setIfInBounds address word
  | patched address _ value =>
    cells.modify address fun w => (w &&& ~~~operandMask) ||| (value &&& operandMask)

def emission? : Change → Option Nat
  | emitted address _ => some address
  | _ => none

def storage? : Change → Option Nat
  | stored address _ => some address
  | _ => none

def patch? : Change → Option (Nat × String × Word)
  | patched address name value => some (address, name, value)
  | _ => none

end Change

def replay (size : MemorySize) (changes : List Change) : Array Word :=
  changes.foldl Change.apply (Array.replicate size.words 0)

def reach (addresses : List Nat) : Nat := (addresses.max?.map (· + 1)).getD 0

theorem reach_append_singleton (addresses : List Nat) (a : Nat) :
    reach (addresses ++ [a]) = max (reach addresses) (a + 1) := by
  cases addresses with
  | nil => simp [reach]
  | cons b addresses =>
    simp only [reach, List.cons_append, List.max?_cons', List.foldl_append, List.foldl_cons,
      List.foldl_nil, Option.map_some, Option.getD_some]
    omega

/-- The changes give the draft as it is before any operand is filled in. -/
structure Draft.Told (d : Draft) (changes : List Change) : Prop where
  cells : replay d.size changes = d.cells
  emitted : changes.filterMap Change.emission? = List.range d.used
  extent : d.extent = max d.used (reach (changes.filterMap Change.storage?))
  unpatched : changes.filterMap Change.patch? = []
  inside : ∀ c ∈ changes, c.address < d.size.words

variable {limit levels number skipped : Nat} {inMacro : Option String} {line name : String}
  {lines rest body : List String} {here : Location} {d d' d₁ : Draft} {vs : List Visit}
  {s : Statement} {e : Effect} {config : Config} {p : Program} {changes : List Change}

namespace Draft.Told

theorem empty (size : MemorySize) : (Draft.empty size).Told [] where
  cells := rfl
  emitted := rfl
  extent := rfl
  unpatched := rfl
  inside := by simp

theorem emit (h : d.Told changes) (hspace : d.used < d.size.words) (s : Statement) (w : Word) :
    (d.emit s w).Told (changes ++ [.emitted d.used w]) where
  cells := by
    rw [replay, List.foldl_append]
    exact congrArg (·.setIfInBounds d.used w) h.cells
  emitted := by
    rw [List.filterMap_append, h.emitted]
    exact List.range_succ.symm
  extent := by
    have hextent := h.extent
    simp only [Draft.emit, List.filterMap_append, List.filterMap_cons, List.filterMap_nil,
      Change.storage?, List.append_nil]
    omega
  unpatched := by simp [h.unpatched, Change.patch?]
  inside := by
    intro c hc
    rcases List.mem_append.mp hc with hc | hc
    · exact h.inside c hc
    · obtain rfl := List.mem_singleton.mp hc
      exact hspace

theorem store {a : Nat} (h : d.Told changes) (ha : a < d.size.words) (w : Word) :
    (d.store a w).Told (changes ++ [.stored a w]) where
  cells := by
    rw [replay, List.foldl_append]
    exact congrArg (·.setIfInBounds a w) h.cells
  emitted := by simp [h.emitted, Change.emission?, Draft.store]
  extent := by
    have hextent := h.extent
    simp only [Draft.store, List.filterMap_append, List.filterMap_cons, List.filterMap_nil,
      Change.storage?, reach_append_singleton]
    omega
  unpatched := by simp [h.unpatched, Change.patch?]
  inside := by
    intro c hc
    rcases List.mem_append.mp hc with hc | hc
    · exact h.inside c hc
    · obtain rfl := List.mem_singleton.mp hc
      exact ha

theorem of_eq (h : d.Told changes) (hsize : d'.size = d.size) (hcells : d'.cells = d.cells)
    (hused : d'.used = d.used) (hextent : d'.extent = d.extent) : d'.Told changes := by
  obtain ⟨cells, emitted, extent, unpatched, inside⟩ := h
  rw [← hsize] at cells inside
  rw [← hcells] at cells
  rw [← hused] at emitted extent
  rw [← hextent] at extent
  exact ⟨cells, emitted, extent, unpatched, inside⟩

end Draft.Told

def Draft.Recorded (d : Draft) : Prop := d.Told d.journal.changes

namespace Draft.Recorded

theorem note (h : d.Recorded) (entry : Entry) (hentry : entry.change? = none)
    (hjournal : d'.journal = d.journal.push entry) (hsize : d'.size = d.size)
    (hcells : d'.cells = d.cells) (hused : d'.used = d.used) (hextent : d'.extent = d.extent) :
    d'.Recorded := by
  rw [Recorded, hjournal, Journal.changes_push, hentry, Option.toList_none, List.append_nil]
  exact h.of_eq hsize hcells hused hextent

theorem refer (h : d.Recorded) (name : String) (here : Location) : (d.refer name here).Recorded :=
  h.of_eq rfl rfl rfl rfl

theorem emit (h : d.Recorded) (hspace : d.used < d.size.words) (s : Statement) (w : Word) :
    (d.emit s w).Recorded := by
  have hjournal : (d.emit s w).journal.changes = d.journal.changes ++ [.emitted d.used w] :=
    Journal.changes_push _ _
  rw [Recorded, hjournal]
  exact Told.emit h hspace s w

theorem store {a : Nat} (h : d.Recorded) (ha : a < d.size.words) (w : Word) :
    (d.store a w).Recorded := by
  have hjournal : (d.store a w).journal.changes = d.journal.changes ++ [.stored a w] :=
    Journal.changes_push _ _
  rw [Recorded, hjournal]
  exact Told.store h ha w

theorem define (h : d.Recorded) (symbol : Symbol) : (d.define symbol).Recorded :=
  h.note (.defined symbol) rfl rfl rfl rfl rfl rfl

theorem reserve (h : d.Recorded) (count : Nat) : (d.reserve count).Recorded :=
  h.note (.reserved (d.data - count + 1) count) rfl rfl rfl rfl rfl rfl

theorem apply (h : d.Recorded) (hsound : d.Sound) (hspace : d.used < d.data) (hdoes : d.Does s e)
    (here : Location) : (d.apply here s e).Recorded := by
  have hroom : d.used < d.size.words := hspace.trans hsound.data_lt
  cases hdoes with
  | blank | beginMacro | call => exact h
  | word | number | known => exact h.emit hroom _ _
  | forward => exact (h.refer _ _).emit hroom _ _
  | set htarget hinside hvalue => exact h.store hinside _
  | label | constant => exact h.define _
  | dataCell => exact (h.define _).reserve 1
  | allocate => exact h.reserve _

theorem next (h : d.Recorded) (hsound : d.Sound)
    (hadvance : d.advance here line rest = .ok (.next d' skipped)) : d'.Recorded := by
  cases advances_of_advance hadvance with
  | @capture name body after hline hspace houter hbody hfree =>
    exact h.note (.captured name body.length) rfl rfl rfl rfl rfl rfl
  | @effect s e hline hspace hs heffect he =>
    exact h.apply hsound (by simpa [isFull] using hspace) (does_of_effectOf heffect) here

theorem expand (h : d.Recorded) (hadvance : d.advance here line rest = .ok (.expand d₁ name body))
    (depth : Nat) : (d₁.note (.expanding name depth)).Recorded := by
  cases advances_of_advance hadvance with
  | expand hline hspace heffect =>
    exact h.note (.expanding name depth) rfl rfl rfl rfl rfl rfl

end Draft.Recorded

theorem Passes.recorded (h : Passes limit levels inMacro number lines d vs d') (hsound : d.Sound)
    (hrecorded : d.Recorded) : d'.Recorded := by
  induction h with
  | done => exact hrecorded
  | next h tail ih => exact ih ((leads_of_advance h).sound hsound) (hrecorded.next hsound h)
  | @expand levels _ _ _ _ name _ _ _ _ _ _ _ h inner tail ihinner ihtail =>
    have hinside := (leads_of_expand h (.expanding name (limit - levels))).sound hsound
    exact ihtail ((Trace.of_passes inner).sound hinside) (ihinner hinside (hrecorded.expand h _))

def Change.Fills (t : SymbolTable) (c : Change) (r : Reference) : Prop :=
  ∃ s, t.get? r.name = some s ∧ s.value ≤ operandMask ∧ c = .patched r.address r.name s.value

theorem Change.apply_patched {value : Word} (h : value ≤ operandMask) (d : Draft) (a : Nat)
    (name : String) :
    Change.apply d.cells (.patched a name value) = (d.patch a name value).cells := by
  rw [Change.apply, and_operandMask_of_le h, Draft.patch]

theorem Draft.changes_resolveAll {rs : List Reference} (h : resolveAll rs d = .ok d') :
    ∃ patches, List.Forall₂ (fun r c => Change.Fills d.symbols c r) rs patches ∧
      d'.journal.changes = d.journal.changes ++ patches ∧
      d'.cells = patches.foldl Change.apply d.cells := by
  induction rs generalizing d with
  | nil =>
    obtain rfl := Except.ok.inj h
    exact ⟨[], .nil, by simp, rfl⟩
  | cons r rs ih =>
    rw [resolveAll] at h
    split at h
    · contradiction
    · rename_i hr
      obtain ⟨s, hget, _, hvalue, rfl⟩ := bound_of_resolve hr
      obtain ⟨patches, hfills, hchanges, hcells⟩ := ih h
      refine ⟨.patched r.address r.name s.value :: patches, .cons ⟨s, hget, hvalue, rfl⟩ hfills,
        ?_, ?_⟩
      · have hjournal : (d.patch r.address r.name s.value).journal.changes =
            d.journal.changes ++ [.patched r.address r.name s.value] := Journal.changes_push _ _
        rw [hchanges, hjournal, List.append_assoc, List.singleton_append]
      · rw [hcells, List.foldl_cons, Change.apply_patched hvalue]

/-- What the changes say of a program whose code made these references. -/
structure Program.LoggedBy (p : Program) (size : MemorySize) (references : List Reference)
    (changes : List Change) : Prop where
  words : replay size changes = p.image.words
  emitted : changes.filterMap Change.emission? = List.range p.codeWords
  used : p.image.used = some (max p.codeWords (reach (changes.filterMap Change.storage?)))
  ordered : (changes.filterMap Change.patch?).Pairwise fun x y => x.1 < y.1
  inside : ∀ x ∈ changes.filterMap Change.patch?, x.1 < p.codeWords
  filled : List.Forall₂ (fun r x => x.1 = r.address ∧ x.2.1 = r.name ∧
    ∃ s, p.symbols.get? r.name = some s ∧ s.value = x.2.2) references
      (changes.filterMap Change.patch?)

theorem assembleSource_of_resolveAll (hpass : pass config lines = .ok d)
    (hresolve : Draft.resolveAll d.references.toList d = .ok d') (hspace : d.used < d.data) :
    assembleSource config lines = ⟨.ok d'.program, d'.journal⟩ := by
  obtain ⟨_, hused, hdata, _⟩ := Draft.resolveAll_frame hresolve
  have hfull : d'.isFull = false := by
    rw [Draft.isFull, hused, hdata]
    simpa using hspace
  rw [assembleSource_eq, hpass]
  simp only [Draft.finish, hresolve, hfull]
  rfl

section Fills

variable {t : SymbolTable} {rs : List Reference} {patches : List Change}

theorem patches_of_fills (h : List.Forall₂ (fun r c => Change.Fills t c r) rs patches) :
    List.Forall₂ (fun r x => x.1 = r.address ∧ x.2.1 = r.name ∧
      ∃ s, t.get? r.name = some s ∧ s.value = x.2.2) rs (patches.filterMap Change.patch?) := by
  induction h with
  | nil => exact .nil
  | cons hfills _ ih =>
    obtain ⟨s, hget, _, rfl⟩ := hfills
    exact .cons ⟨rfl, rfl, s, hget, rfl⟩ ih

theorem addresses_of_fills (h : List.Forall₂ (fun r c => Change.Fills t c r) rs patches) :
    (patches.filterMap Change.patch?).map (·.1) = rs.map Reference.address := by
  induction h with
  | nil => rfl
  | cons hfills _ ih =>
    obtain ⟨s, _, _, rfl⟩ := hfills
    exact congrArg (_ :: ·) ih

theorem only_patches_of_fills (h : List.Forall₂ (fun r c => Change.Fills t c r) rs patches) :
    patches.filterMap Change.emission? = [] ∧ patches.filterMap Change.storage? = [] ∧
      ∀ c ∈ patches, ∃ r ∈ rs, c.address = r.address := by
  induction h with
  | nil => simp
  | cons hfills _ ih =>
    obtain ⟨s, _, _, rfl⟩ := hfills
    obtain ⟨hemission, hstorage, haddress⟩ := ih
    refine ⟨hemission, hstorage, ?_⟩
    intro c hc
    rcases List.mem_cons.mp hc with rfl | hc
    · exact ⟨_, List.mem_cons_self, rfl⟩
    · obtain ⟨r, hr, hrc⟩ := haddress c hc
      exact ⟨r, List.mem_cons_of_mem _ hr, hrc⟩

end Fills

theorem Draft.Recorded.of_pass (h : pass config lines = .ok d) : d.Recorded :=
  (passes_of_assembleLines h).recorded (Draft.sound_empty config.size)
    (Draft.Told.empty config.size)

theorem Draft.Told.program {patches : List Change} (h : d.Told changes) (hsound : d.Sound)
    (hcovers : d.Covers) (hresolve : resolveAll d.references.toList d = .ok d')
    (hfills : List.Forall₂ (fun r c => Change.Fills d.symbols c r) d.references.toList patches)
    (hcells : d'.cells = patches.foldl Change.apply d.cells) :
    d'.program.LoggedBy d.size d.references.toList (changes ++ patches) := by
  obtain ⟨hsymbols, hused, _, _, hlength⟩ := resolveAll_frame hresolve
  obtain ⟨hemission, hstorage, _⟩ := only_patches_of_fills hfills
  have hpatches : (changes ++ patches).filterMap Change.patch? =
      patches.filterMap Change.patch? := by
    rw [List.filterMap_append, h.unpatched, List.nil_append]
  constructor
  case words =>
    rw [replay, List.foldl_append]
    exact (congrArg (patches.foldl Change.apply) h.cells).trans hcells.symm
  case emitted =>
    rw [List.filterMap_append, hemission, List.append_nil, h.emitted]
    exact congrArg List.range hused.symm
  case used =>
    have hextent : d'.extent = max d'.used (reach (changes.filterMap Change.storage?)) := by
      rw [extent_resolveAll hresolve, hused]
      exact h.extent
    have hfits : d'.extent ≤ d'.cells.size := by
      rw [extent_resolveAll hresolve, hlength, hsound.length_cells]
      exact hcovers.extent_le
    rw [List.filterMap_append, hstorage, List.append_nil]
    exact congrArg some ((Nat.min_eq_left hfits).trans hextent)
  case ordered =>
    rw [hpatches, ← List.pairwise_map (f := Prod.fst) (R := (· < ·)), addresses_of_fills hfills,
      List.pairwise_map]
    exact hsound.ordered
  case inside =>
    rw [hpatches]
    intro x hx
    have hmem : x.1 ∈ (patches.filterMap Change.patch?).map (·.1) := List.mem_map_of_mem hx
    rw [addresses_of_fills hfills] at hmem
    obtain ⟨r, hr, hrx⟩ := List.mem_map.mp hmem
    rw [← hrx]
    exact (hsound.referred r hr).trans_eq hused.symm
  case filled =>
    have hfilled := patches_of_fills hfills
    rwa [← hsymbols, ← hpatches] at hfilled

/-- The log of a program tells its image, its code, its extent and the operands filled in, and
besides only of macros. -/
theorem logged_of_assembleSource (h : (assembleSource config lines).result = .ok p) :
    p.LoggedBy config.size ((visitsOf config lines).filterMap Visit.forward?)
        (changesOf (assembleSource config lines).journal.records) ∧
      ∀ r ∈ (assembleSource config lines).journal.records, Change.ofRecord? r = none →
        r.level = .debug ∧
          ∃ rest, r.text = "captured macro " ++ rest ∨ r.text = "expanding macro " ++ rest := by
  obtain ⟨d, d', hpass, hresolve, hspace, rfl⟩ := assembleSource_ok h
  obtain ⟨patches, hfills, hchanges, hcells⟩ := Draft.changes_resolveAll hresolve
  obtain ⟨hsound, hcovers⟩ := sound_of_pass hpass
  have hrecorded := Draft.Recorded.of_pass hpass
  have hsize : d.size = config.size := (Trace.of_pass hpass).size
  -- every address is that of a cell, so it has four digits and is read back
  have haddress : ∀ c ∈ d'.journal.changes, c.address < 65536 := by
    intro c hc
    refine lt_of_lt_of_le ?_ d.size.words_le
    rw [hchanges] at hc
    rcases List.mem_append.mp hc with hc | hc
    · exact hrecorded.inside c hc
    · obtain ⟨r, hr, hrc⟩ := (only_patches_of_fills hfills).2.2 c hc
      rw [hrc, ← hsound.length_cells]
      exact hsound.address_lt hcovers hr
  rw [assembleSource_of_resolveAll hpass hresolve hspace]
  refine ⟨?_, fun r hr => d'.journal.of_unread haddress hr⟩
  rw [Journal.changesOf_records _ haddress, hchanges, ← references_of_pass hpass, ← hsize]
  exact hrecorded.program hsound hcovers hresolve hfills hcells

/-- The jump is overwritten before its operand is known; the log says how its cell came by both. -/
theorem logged_of_overwritten : ∃ p changes,
    (assembleSource .least ["jump top", ".set $0 $f000", "nop", "label top"]).result = .ok p ∧
    changesOf (assembleSource .least
      ["jump top", ".set $0 $f000", "nop", "label top"]).journal.records = changes ∧
    changes.filterMap Change.emission? = [0, 1] ∧
    (replay Config.least.size changes)[0]? = some 0xf002 := by
  have hwords : (assembleSource .least ["jump top", ".set $0 $f000", "nop",
      "label top"]).result.toOption.map (fun p => (p.codeWords, p.image.words[0]?)) =
        some (2, some 0xf002) := by cbv
  obtain ⟨p, h, hprogram⟩ := exists_ok hwords
  obtain ⟨hcode, hword⟩ := Prod.mk.inj hprogram
  have hlogged := (logged_of_assembleSource h).1
  refine ⟨p, _, h, rfl, ?_, ?_⟩
  · rw [hlogged.emitted, hcode]
    rfl
  · rw [hlogged.words, hword]

end WordMachine.Assembly
