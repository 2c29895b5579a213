import WordMachine.Proofs.Assembly.Resolution

/-!
# The extent of a draft

The extent is the length of the memory up to the last word written. Every word that the pass emits
or stores lies within it, and it lies within the memory.
-/

namespace WordMachine.Assembly

variable {d d' : Draft} {v : Visit} {vs : List Visit} {a : Nat} {w : Word} {config : Config}
  {lines : List String}

def Visit.Writes (v : Visit) (a : Nat) : Prop :=
  ∃ w, v.emission? = some (a, w) ∨ v.stored? = some (a, w)

namespace Visit.Leads

theorem extent_le (h : v.Leads d) : v.before.extent ≤ d.extent := by
  obtain ⟨s, e, _, _, _, _, macros, journal, rfl⟩ := h.cases
  cases e with
  | emit | emitForward | store => exact Nat.le_max_left _ _
  | _ => exact le_refl _

theorem lt_extent (h : v.Leads d) (ha : v.Writes a) : a < d.extent := by
  obtain ⟨s, e, _, _, heffect, _, macros, journal, rfl⟩ := h.cases
  obtain ⟨w, hw | hw⟩ := ha
  · rw [emission?, word?, heffect] at hw
    cases e with
    | emit | emitForward =>
      obtain ⟨rfl, -⟩ := Prod.mk.inj (Option.some.inj hw)
      exact Nat.le_max_right _ _
    | _ => simp at hw
  · rw [stored?, heffect] at hw
    cases e with
    | store =>
      obtain ⟨rfl, -⟩ := Prod.mk.inj (Option.some.inj hw)
      exact Nat.le_max_right _ _
    | _ => simp at hw

end Visit.Leads

namespace Trace

theorem extent_le (h : Trace d vs d') : d.extent ≤ d'.extent := by
  induction h with
  | nil => exact le_refl _
  | cons step tail ih => exact step.extent_le.trans ih

theorem lt_extent (h : Trace d vs d') (hv : v ∈ vs) (ha : v.Writes a) : a < d'.extent := by
  induction h with
  | nil => simp at hv
  | cons step tail ih =>
    rcases List.mem_cons.mp hv with rfl | hmem
    · exact lt_of_lt_of_le (step.lt_extent ha) tail.extent_le
    · exact ih hmem

end Trace

theorem Draft.extent_resolveAll {rs : List Reference} (h : resolveAll rs d = .ok d') :
    d'.extent = d.extent := by
  induction rs generalizing d with
  | nil =>
    obtain rfl := Except.ok.inj h
    rfl
  | cons r rs ih =>
    rw [resolveAll] at h
    split at h
    · contradiction
    · rename_i hr
      obtain ⟨s, _, _, _, rfl⟩ := bound_of_resolve hr
      have hextent := ih h
      exact hextent

/-- The extent covers the code, and the memory covers the extent. -/
structure Draft.Covers (d : Draft) : Prop where
  used_le : d.used ≤ d.extent
  extent_le : d.extent ≤ d.size.words

theorem Draft.covers_empty (size : MemorySize) : (Draft.empty size).Covers where
  used_le := le_refl 0
  extent_le := Nat.zero_le _

theorem Visit.Leads.covers (h : v.Leads d) (hsound : v.before.Sound) (hcovers : v.before.Covers) :
    d.Covers := by
  obtain ⟨s, e, _, hdoes, heffect, hspace, macros, journal, rfl⟩ := h.cases
  obtain ⟨hused, hextent⟩ := hcovers
  have hcode : v.before.used + 1 ≤ v.before.size.words := hspace.trans hsound.data_lt
  cases hdoes with
  | word | number | known | forward =>
    exact ⟨Nat.le_max_right _ _, Nat.max_le.mpr ⟨hextent, hcode⟩⟩
  | set htarget hinside hvalue =>
    exact ⟨hused.trans (Nat.le_max_left _ _), Nat.max_le.mpr ⟨hextent, hinside⟩⟩
  | _ => exact ⟨hused, hextent⟩

theorem Trace.covers (h : Trace d vs d') (hsound : d.Sound) (hcovers : d.Covers) : d'.Covers := by
  induction h with
  | nil => exact hcovers
  | cons step tail ih => exact ih (step.sound hsound) (step.covers hsound hcovers)

theorem Draft.Sound.address_lt {r : Reference} (hsound : d.Sound) (hcovers : d.Covers)
    (hr : r ∈ d.references.toList) : r.address < d.cells.size := by
  rw [hsound.length_cells]
  exact (hsound.referred r hr).trans_le (hcovers.used_le.trans hcovers.extent_le)

theorem sound_of_pass (h : pass config lines = .ok d) : d.Sound ∧ d.Covers := by
  have trace := Trace.of_pass h
  have hempty := Draft.sound_empty config.size
  exact ⟨trace.sound hempty, trace.covers hempty (Draft.covers_empty config.size)⟩

end WordMachine.Assembly
