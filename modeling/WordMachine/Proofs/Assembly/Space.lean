import Mathlib.Algebra.Ring.Nat
import WordMachine.Proofs.Assembly.Failures

/-!
# Space

Space is short exactly where the words emitted and the cells asked for do not fit: nothing else
moves the cursors, and the last cell before the data is never used. For lines that cannot go wrong
otherwise, whether a source fits depends on the total of what they need, not on their order.
-/

namespace WordMachine.Assembly

variable {limit levels number : Nat} {inMacro : Option String} {line field : String}
  {lines : List String} {d d' : Draft} {v : Visit} {vs : List Visit}
  {s : Statement} {w : Word} {f : Failure} {config : Config}

/-- The data cells that the line asks for, whether it gets them or not. -/
def Visit.asks (v : Visit) : Nat :=
  if v.before.isFull then 0
  else
    match v.statement? with
    | some (.dataCell _) => 1
    | some (.allocate count) => (v.before.countOf count).toOption.getD 0
    | _ => 0

def demand (vs : List Visit) : Nat :=
  (vs.filterMap Visit.word?).length + (vs.map Visit.asks).sum

theorem demand_append (us vs : List Visit) : demand (us ++ vs) = demand us + demand vs := by
  simp only [demand, List.filterMap_append, List.map_append, List.length_append, List.sum_append]
  omega

theorem demand_cons (v : Visit) (vs : List Visit) :
    demand (v :: vs) = v.word?.toList.length + v.asks + demand vs := by
  rw [← List.singleton_append, demand_append]
  cases hword : v.word? <;> simp [demand, hword]

theorem Visit.asks_allocate {count : String} {cells : Nat} (hspace : v.before.isFull = false)
    (hline : v.statement? = some (.allocate count)) (hcount : v.before.countOf count = .ok cells) :
    v.asks = cells := by
  rw [asks, hspace, hline]
  simp [hcount, Except.toOption]

theorem Visit.Leads.asks (h : v.Leads d) : d.data + v.asks = v.before.data := by
  obtain ⟨s, e, hline, hdoes, _, hspace, macros, journal, rfl⟩ := h.cases
  have hfull : v.before.isFull = false := by simpa [Draft.isFull] using hspace
  cases hdoes with
  | allocate hcount hroom =>
    rw [asks_allocate hfull hline hcount]
    exact Nat.sub_add_cancel hroom
  | dataCell hfree =>
    rw [Visit.asks, hfull, hline]
    exact Nat.sub_add_cancel (Nat.one_le_of_lt hspace)
  | _ =>
    rw [Visit.asks, hfull, hline]
    rfl

theorem Trace.demand (h : Trace d vs d') : d'.used + d.data = d.used + d'.data + demand vs := by
  induction h with
  | nil => rfl
  | cons step tail ih =>
    have hused := step.used
    have hdata := step.asks
    rw [demand_cons]
    omega

theorem Draft.Refuses.short (h : v.before.Refuses v.here v.line v.rest f)
    (hcause : f.error.cause = .spaceExhausted) :
    v.before.data ≤ v.before.used + v.asks := by
  cases h with
  | full hfull =>
    have hshort : v.before.data ≤ v.before.used := of_decide_eq_true hfull
    exact hshort.trans (Nat.le_add_right _ _)
  | unread _ hline =>
    obtain rfl : _ = Cause.spaceExhausted := hcause
    cases Statement.flaw_of_ofFields hline
  | nested | unterminated | redefined => cases hcause
  | blamed hspace hline _ heffect =>
    obtain rfl : _ = Cause.spaceExhausted := hcause
    cases blames_of_effectOf heffect with
    | misused _ _ hflaw => cases hflaw
    | @noRoom count n hcount hroom =>
      have hallocate : v.statement? = some (.allocate count) := by
        rw [Visit.statement?, hline]
        rfl
      rw [Visit.asks_allocate hspace hallocate hcount]
      omega

theorem demand_lt {p : Program} (h : (assembleSource config lines).result = .ok p) :
    demand (visitsOf config lines) < config.size.words - 1 := by
  obtain ⟨d, _, hpass, _, hspace, _⟩ := assembleSource_ok h
  have htotal : d.used + (config.size.words - 1) = 0 + d.data + demand (visitsOf config lines) :=
    (Trace.of_pass hpass).demand
  omega

theorem le_demand {x : Error} (h : (assembleSource config lines).result = .error x)
    (hcause : x.cause = .spaceExhausted) :
    config.size.words - 1 ≤ demand (visitsOf config lines) := by
  cases fails_of_assembleSource h with
  | @stopped vs v f _ hvisits hroute hstop =>
    have htotal : v.before.used + (config.size.words - 1) = 0 + v.before.data + demand vs :=
      hroute.trace.demand
    cases hstop with
    | refused hrefuses =>
      have hshort := hrefuses.short hcause
      rw [hvisits, demand_append, demand_cons]
      omega
    | tooDeep => cases hcause
  | unresolved | tooLarge => cases hcause
  | @full d hpass hfull =>
    have htotal : d.used + (config.size.words - 1) = 0 + d.data + demand (visitsOf config lines) :=
      (Trace.of_pass hpass).demand
    omega

/-- What a line needs: words of code, data cells, and a name that is free. -/
structure Need where
  words : Nat := 0
  cells : Nat := 0
  name? : Option String := none
  deriving DecidableEq

variable {n : Need} {needs : List Need}

def Statement.need? : Statement → Option Need
  | .blank => some {}
  | .single field =>
    match number? field with
    | .ok (some _) => some { words := 1 }
    | _ => (pseudoWord? field).map fun _ => { words := 1 }
  | .dataCell name => some { cells := 1, name? := some name }
  | .allocate count =>
    match number? count with
    | .ok (some w) => some { cells := w.toNat }
    | _ => none
  | .instruction _ operand =>
    match number? operand with
    | .ok (some w) => if w ≤ operandMask then some { words := 1 } else none
    | _ => none
  | _ => none

def need? (line : String) : Option Need :=
  (Statement.ofFields (tokenize line)).toOption.bind Statement.need?

def Need.total (needs : List Need) : Nat :=
  (needs.map Need.words).sum + (needs.map Need.cells).sum

inductive Statement.Needs : Statement → Need → Prop
  | blank : Needs .blank {}
  | word {field : String} {w : Word} (h : ∀ d : Draft, d.singleEffect field = .ok (.emit w)) :
      Needs (.single field) { words := 1 }
  | dataCell {name : String} : Needs (.dataCell name) { cells := 1, name? := some name }
  | allocate {count : String} {w : Word} (h : number? count = .ok (some w)) :
      Needs (.allocate count) { cells := w.toNat }
  | instruction {opcode : Opcode} {token : String} {w : Word} (h : number? token = .ok (some w))
      (hw : w ≤ operandMask) : Needs (.instruction opcode token) { words := 1 }

theorem number?_of_pseudoWord? (h : pseudoWord? field = some w) : number? field = .ok none := by
  unfold pseudoWord? at h
  split at h
  · rename_i hname
    rw [hname]
    cbv
  · split at h
    · rename_i hname
      rw [hname]
      cbv
    · contradiction

theorem Statement.needs_of_need? (h : s.need? = some n) : s.Needs n := by
  cases s with
  | blank =>
    obtain rfl := Option.some.inj h
    exact .blank
  | single field =>
    simp only [need?] at h
    split at h
    · rename_i w hnumber
      obtain rfl := Option.some.inj h
      refine .word (w := w) fun d => ?_
      rw [Draft.singleEffect, hnumber]
    · obtain ⟨w, hw, rfl⟩ := Option.map_eq_some_iff.mp h
      refine .word (w := w) fun d => ?_
      rw [Draft.singleEffect, number?_of_pseudoWord? hw]
      simp only [hw]
  | dataCell name =>
    obtain rfl := Option.some.inj h
    exact .dataCell
  | allocate count =>
    simp only [need?] at h
    split at h
    · rename_i hnumber
      obtain rfl := Option.some.inj h
      exact .allocate hnumber
    · contradiction
  | instruction opcode operand =>
    simp only [need?] at h
    split at h
    · rename_i hnumber
      split at h
      · rename_i hw
        obtain rfl := Option.some.inj h
        exact .instruction hnumber hw
      · contradiction
    · contradiction
  | beginMacro | label | set | constant => contradiction

/-- The second draft is the first with all that is needed taken. -/
structure Draft.Takes (d : Draft) (needs : List Need) (d' : Draft) : Prop where
  used : d'.used = d.used + (needs.map Need.words).sum
  data : d'.data + (needs.map Need.cells).sum = d.data
  references : d'.references = d.references
  names : ∀ name, d'.symbols.contains name = true →
    d.symbols.contains name = true ∨ name ∈ needs.filterMap Need.name?

theorem Draft.Takes.cons {d₁ : Draft} (h : d.Takes [n] d₁) (h' : d₁.Takes needs d') :
    d.Takes (n :: needs) d' where
  used := by
    have hfirst := h.used
    have hrest := h'.used
    simp only [List.map_cons, List.map_nil, List.sum_cons, List.sum_nil] at hfirst ⊢
    omega
  data := by
    have hfirst := h.data
    have hrest := h'.data
    simp only [List.map_cons, List.map_nil, List.sum_cons, List.sum_nil] at hfirst ⊢
    omega
  references := h'.references.trans h.references
  names name hname := by
    rw [← List.singleton_append, List.filterMap_append, List.mem_append]
    rcases h'.names name hname with hknown | hnew
    · exact (h.names name hknown).imp_right .inl
    · exact .inr (.inr hnew)

theorem Statement.Needs.obeyed (h : s.Needs n) (here : Location) (rest : List String)
    (hspace : d.isFull = false)
    (hfree : ∀ name, n.name? = some name → d.symbols.contains name = false) :
    (∃ d', d.obey here s rest = .ok (.next d' 0) ∧ d.Takes [n] d') ∨
      d.data < n.cells ∧ d.obey here s rest = .error (d.failure here .spaceExhausted) := by
  cases h with
  | blank => exact .inl ⟨d, rfl, rfl, rfl, rfl, fun _ => .inl⟩
  | @word field w hword =>
    refine .inl ⟨d.emit (.single field) w, ?_, rfl, rfl, rfl, fun _ => .inl⟩
    simp only [Draft.obey, Draft.effectOf, hword, Draft.apply]
  | @instruction opcode token w hnumber hw =>
    refine .inl ⟨d.emit (.instruction opcode token) (Instruction.encode ⟨opcode, w⟩), ?_, rfl, rfl,
      rfl, fun _ => .inl⟩
    simp only [Draft.obey, Draft.effectOf, Draft.instructionEffect, hnumber,
      Draft.operandOf_of_le hw, Except.map, Draft.apply]
  | @allocate count w hcount =>
    have hcells : d.countOf count = .ok w.toNat := by
      rw [Draft.countOf, hcount]
    rcases Nat.lt_or_ge d.data w.toNat with hshort | hroom
    · refine .inr ⟨hshort, ?_⟩
      simp only [Draft.obey, Draft.effectOf, Draft.allocateEffect, hcells, hshort, if_true]
    · refine .inl ⟨d.reserve w.toNat, ?_, rfl, Nat.sub_add_cancel hroom, rfl, fun _ => .inl⟩
      simp only [Draft.obey, Draft.effectOf, Draft.allocateEffect, hcells,
        Nat.not_lt.mpr hroom, if_false, Draft.apply]
  | @dataCell name =>
    have hname := hfree name rfl
    have hcell : 1 ≤ d.data := Nat.one_le_of_lt (by simpa [Draft.isFull] using hspace)
    refine .inl ⟨(d.define ⟨name, .dataCell, UInt16.ofNat d.data⟩).reserve 1, ?_, rfl,
      Nat.sub_add_cancel hcell, rfl, ?_⟩
    · simp [Draft.obey, Draft.effectOf, Draft.unlessDefined, hname, Draft.apply]
    · intro other hother
      have hinsert : (d.symbols.insert ⟨name, .dataCell, UInt16.ofNat d.data⟩).contains other :=
        hother
      rw [SymbolTable.contains_insert, Bool.or_eq_true, beq_iff_eq] at hinsert
      rcases hinsert with rfl | hknown
      · exact .inr List.mem_cons_self
      · exact .inl hknown

theorem advance_of_need? (here : Location) (rest : List String) (hline : need? line = some n)
    (hspace : d.isFull = false)
    (hfree : ∀ name, n.name? = some name → d.symbols.contains name = false) :
    (∃ d', d.advance here line rest = .ok (.next d' 0) ∧ d.Takes [n] d') ∨
      d.data < n.cells ∧ d.advance here line rest = .error (d.failure here .spaceExhausted) := by
  obtain ⟨s, hs, hneed⟩ := Option.bind_eq_some_iff.mp hline
  cases hfields : Statement.ofFields (tokenize line) with
  | error cause => simp [hfields, Except.toOption] at hs
  | ok s' =>
    rw [hfields] at hs
    obtain rfl := Option.some.inj hs
    have hobeyed := (Statement.needs_of_need? hneed).obeyed here rest hspace hfree
    simpa only [Draft.advance, hspace, Bool.false_eq_true, if_false, hfields] using hobeyed

/-- By induction on the lines, either all of them get what they need, or the pass ends where space
is short. -/
theorem assembleLines_of_needs (hlines : lines.map need? = needs.map some)
    (hnodup : (needs.filterMap Need.name?).Nodup)
    (hfree : ∀ name ∈ needs.filterMap Need.name?, d.symbols.contains name = false) :
    (∃ d', assembleLines limit levels inMacro number lines d = .ok d' ∧ d.Takes needs d') ∨
      ∃ f, assembleLines limit levels inMacro number lines d = .error f ∧
        f.error.cause = .spaceExhausted ∧ d.data ≤ d.used + Need.total needs := by
  induction lines generalizing number needs d with
  | nil =>
    obtain rfl : needs = [] := by simpa using hlines.symm
    rw [assembleLines]
    exact .inl ⟨d, rfl, rfl, rfl, rfl, fun _ => .inl⟩
  | cons line lines ih =>
    obtain _ | ⟨n, needs⟩ := needs
    · contradiction
    obtain ⟨hline, hlines⟩ := List.cons.inj hlines
    rw [← List.singleton_append, List.filterMap_append] at hnodup hfree
    obtain ⟨_, hnodup, hapart⟩ := List.nodup_append.mp hnodup
    rw [assembleLines, Need.total, List.map_cons, List.map_cons, List.sum_cons, List.sum_cons]
    rcases Bool.eq_false_or_eq_true d.isFull with hfull | hspace
    · have hadvance : d.advance ⟨number, inMacro⟩ line lines =
          .error (d.failure ⟨number, inMacro⟩ .spaceExhausted) := if_pos hfull
      have hshort : d.data ≤ d.used := of_decide_eq_true hfull
      rw [hadvance]
      exact .inr ⟨_, rfl, rfl, by omega⟩
    · have hname : ∀ name, n.name? = some name → d.symbols.contains name = false :=
        fun name hname => hfree name (List.mem_append_left _ (by simp [hname]))
      rcases advance_of_need? ⟨number, inMacro⟩ lines hline hspace hname with
        ⟨d₁, hadvance, htakes⟩ | ⟨hshort, hadvance⟩
      · -- the names that are needed further down are apart from the one that is taken here
        have hfree' : ∀ name ∈ needs.filterMap Need.name?, d₁.symbols.contains name = false := by
          intro name hmem
          refine Bool.eq_false_iff.mpr fun hknown => ?_
          rcases htakes.names name hknown with hold | hnew
          · rw [hfree name (List.mem_append_right _ hmem)] at hold
            contradiction
          · exact hapart name hnew name hmem rfl
        rw [hadvance]
        rcases ih hlines hnodup hfree' with ⟨d', hpass, htakes'⟩ | ⟨f, hpass, hcause, hshort⟩
        · exact .inl ⟨d', hpass, htakes.cons htakes'⟩
        · refine .inr ⟨f, hpass, hcause, ?_⟩
          have hused := htakes.used
          have hdata := htakes.data
          simp only [Need.total, List.map_cons, List.map_nil, List.sum_cons, List.sum_nil] at *
          omega
      · rw [hadvance]
        exact .inr ⟨_, rfl, rfl, by omega⟩

theorem Draft.Takes.finish (h : (Draft.empty config.size).Takes needs d) :
    d.finish = if Need.total needs < config.size.words - 1 then ⟨.ok d.program, d.journal⟩
      else ⟨.error ⟨.spaceExhausted, none⟩, d.journal⟩ := by
  have hused : d.used = 0 + (needs.map Need.words).sum := h.used
  have hdata : d.data + (needs.map Need.cells).sum = config.size.words - 1 := h.data
  have hresolve : resolveAll d.references.toList d = .ok d := by
    rw [h.references]
    rfl
  unfold Draft.finish
  simp only [hresolve, isFull, decide_eq_true_eq]
  split
  · rw [if_neg]
    rw [Need.total]
    omega
  · rw [if_pos]
    rw [Need.total]
    omega

theorem assembleSource_of_needs (hlines : lines.map need? = needs.map some)
    (hnodup : (needs.filterMap Need.name?).Nodup) :
    if Need.total needs < config.size.words - 1 then
      ∃ p, (assembleSource config lines).result = .ok p
    else ∃ location, (assembleSource config lines).result = .error ⟨.spaceExhausted, location⟩ := by
  have hfree : ∀ name ∈ needs.filterMap Need.name?,
      (Draft.empty config.size).symbols.contains name = false := by
    intro name _
    simp [Draft.empty, SymbolTable.contains]
  rcases assembleLines_of_needs hlines hnodup hfree with
    ⟨d, hpass, htakes⟩ | ⟨f, hpass, hcause, hshort⟩
  · have hpass' : pass config lines = .ok d := hpass
    have houtcome : assembleSource config lines = d.finish := by
      rw [assembleSource_eq, hpass']
    rw [houtcome, htakes.finish]
    split
    · exact ⟨d.program, rfl⟩
    · exact ⟨none, rfl⟩
  · have hpass' : pass config lines = .error f := hpass
    have houtcome : assembleSource config lines = ⟨.error f.error, f.journal⟩ := by
      rw [assembleSource_eq, hpass']
    have hshort' : config.size.words - 1 ≤ 0 + Need.total needs := hshort
    rw [houtcome, if_neg (by omega)]
    exact ⟨f.error.location, by rw [← hcause]⟩

/-- What is emitted and asked for fits if the assembly succeeds, and does not fit if it runs out of
space. Lines that need space only, in whatever order, are a program if the total fits, and run out
of space if not. -/
theorem space_exhausted_iff_short (config : Config) (lines : List String) :
    (∀ p, (assembleSource config lines).result = .ok p →
      demand (visitsOf config lines) < config.size.words - 1) ∧
    (∀ x, (assembleSource config lines).result = .error x → x.cause = .spaceExhausted →
      config.size.words - 1 ≤ demand (visitsOf config lines)) ∧
    ∀ needs, lines.map need? = needs.map some → (needs.filterMap Need.name?).Nodup →
      if Need.total needs < config.size.words - 1 then
        ∃ p, (assembleSource config lines).result = .ok p
      else ∃ location, (assembleSource config lines).result = .error ⟨.spaceExhausted, location⟩ :=
  ⟨fun _ => demand_lt, fun _ => le_demand, fun _ => assembleSource_of_needs⟩

theorem space_exhausted_iff_short_blank :
    ∃ p, (assembleSource .least ["allocate $c", "nop", "variable n", ""]).result = .ok p ∧
      demand (visitsOf .least ["allocate $c", "nop", "variable n", ""]) < 15 ∧
      (assembleSource .least ["allocate $d", "nop", "variable n", ""]).result =
        .error ⟨.spaceExhausted, some ⟨4, none⟩⟩ ∧
      15 ≤ demand (visitsOf .least ["allocate $d", "nop", "variable n", ""]) := by
  obtain ⟨hfits, _, hneeds⟩ := space_exhausted_iff_short .least
    ["allocate $c", "nop", "variable n", ""]
  obtain ⟨_, hshort, _⟩ := space_exhausted_iff_short .least ["allocate $d", "nop", "variable n", ""]
  obtain ⟨p, hp⟩ := hneeds [{ cells := 12 }, { words := 1 }, { cells := 1, name? := some "n" }, {}]
    (by cbv) (by decide)
  have hfull : (assembleSource .least ["allocate $d", "nop", "variable n", ""]).result =
      .error ⟨.spaceExhausted, some ⟨4, none⟩⟩ := by cbv
  exact ⟨p, hp, hfits p hp, hfull, hshort _ hfull rfl⟩

end WordMachine.Assembly
