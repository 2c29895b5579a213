import Mathlib.Data.List.Nodup
import WordMachine.Assembly.Symbol

/-!
# Names of a symbol table

A table is coherent if its index leads to every entry by its name, and nowhere else. Tables made by
definitions of free names are coherent; in such a table a name has one symbol and keeps it.
-/

namespace WordMachine.Assembly.SymbolTable

/-- The index leads from a name to the place of the symbol that has the name. -/
def Coherent (t : SymbolTable) : Prop :=
  ∀ name place, t.index[name]? = some place ↔
    ∃ s : Symbol, t.entries[place]? = some s ∧ s.name = name

variable {t : SymbolTable} {s : Symbol} {name : String}

theorem coherent_empty : empty.Coherent := by
  intro name place
  simp [empty]

theorem Coherent.lt_of_index {place : Nat} (h : t.Coherent) (hplace : t.index[name]? = some place) :
    place < t.entries.size := by
  obtain ⟨s, hentry, _⟩ := (h name place).mp hplace
  exact (Array.getElem?_eq_some_iff.mp hentry).1

theorem Coherent.contains_eq_isSome_get? (h : t.Coherent) (name : String) :
    t.contains name = (t.get? name).isSome := by
  rw [contains, Std.HashMap.contains_eq_isSome_getElem?, get?]
  cases hplace : t.index[name]? with
  | none => rfl
  | some place =>
    rw [Option.bind_some, Array.getElem?_eq_getElem (h.lt_of_index hplace)]
    rfl

theorem Coherent.free (h : t.Coherent) (hfree : t.contains name = false) (place : Nat) :
    ¬∃ s : Symbol, t.entries[place]? = some s ∧ s.name = name := by
  rw [← h name place]
  intro hplace
  have hmem : t.contains name = true := by
    rw [contains, Std.HashMap.contains_eq_isSome_getElem?, hplace]
    rfl
  rw [hmem] at hfree
  contradiction

theorem Coherent.insert (h : t.Coherent) (hfree : t.contains s.name = false) :
    (t.insert s).Coherent := by
  intro name place
  simp only [SymbolTable.insert, Std.HashMap.getElem?_insert, Array.getElem?_push, beq_iff_eq]
  by_cases hname : s.name = name
  · -- the new entry is the only one with its name, since the name was free
    subst hname
    rw [if_pos rfl]
    by_cases hplace : place = t.entries.size
    · simp [hplace]
    · have hold := h.free hfree place
      simp only [hplace, if_false]
      exact ⟨fun heq => absurd (Option.some.inj heq).symm hplace, fun heq => absurd heq hold⟩
  · rw [if_neg hname]
    by_cases hplace : place = t.entries.size
    · subst hplace
      simp [h name, hname]
    · rw [if_neg hplace]
      exact h name place

theorem Coherent.get?_eq_some (h : t.Coherent) :
    t.get? name = some s ↔ s ∈ t.toList ∧ s.name = name := by
  rw [get?, Option.bind_eq_some_iff, toList, Array.mem_toList_iff]
  constructor
  · rintro ⟨place, hindex, hentry⟩
    obtain ⟨s', hentry', hname⟩ := (h name place).mp hindex
    obtain rfl : s' = s := Option.some.inj (hentry'.symm.trans hentry)
    exact ⟨Array.mem_of_getElem? hentry, hname⟩
  · rintro ⟨hmem, hname⟩
    obtain ⟨place, hentry⟩ := Array.getElem?_of_mem hmem
    exact ⟨place, (h name place).mpr ⟨s, hentry, hname⟩, hentry⟩

theorem Coherent.get?_insert (h : t.Coherent) (hfree : t.contains s.name = false)
    (name : String) : (t.insert s).get? name = if s.name = name then some s else t.get? name := by
  ext s'
  rw [(h.insert hfree).get?_eq_some, toList_insert, List.mem_append, List.mem_singleton]
  split
  · next hname =>
    -- the new symbol is the only one with its name, since the name was free
    constructor
    · rintro ⟨hmem | rfl, hname'⟩
      · have hget : t.get? s.name = some s' := h.get?_eq_some.mpr ⟨hmem, hname'.trans hname.symm⟩
        rw [h.contains_eq_isSome_get?, hget] at hfree
        contradiction
      · rfl
    · intro hs
      obtain rfl := Option.some.inj hs
      exact ⟨.inr rfl, hname⟩
  · next hname =>
    rw [h.get?_eq_some]
    constructor
    · rintro ⟨hmem | rfl, hname'⟩
      · exact ⟨hmem, hname'⟩
      · exact absurd hname' hname
    · rintro ⟨hmem, hname'⟩
      exact ⟨.inl hmem, hname'⟩

theorem Coherent.get?_insert_of_get? (h : t.Coherent) {s' : Symbol}
    (hfree : t.contains s'.name = false) (hget : t.get? name = some s) :
    (t.insert s').get? name = some s := by
  rw [(h.insert hfree).get?_eq_some, toList_insert]
  obtain ⟨hmem, hname⟩ := h.get?_eq_some.mp hget
  exact ⟨List.mem_append_left _ hmem, hname⟩

theorem Coherent.nodup (h : t.Coherent) : (t.toList.map Symbol.name).Nodup := by
  rw [List.nodup_iff_getElem?_ne_getElem?]
  intro i j hij hj heq
  simp only [List.length_map, toList, Array.length_toList, List.getElem?_map,
    Array.getElem?_toList] at hj heq
  have hi : i < t.entries.size := by omega
  rw [Array.getElem?_eq_getElem hi, Array.getElem?_eq_getElem hj] at heq
  have hname : t.entries[i].name = t.entries[j].name := by simpa using heq
  have hplace := (h t.entries[j].name i).mpr ⟨t.entries[i], by simp, hname⟩
  have hplace' := (h t.entries[j].name j).mpr ⟨t.entries[j], by simp, rfl⟩
  rw [hplace] at hplace'
  have : i = j := Option.some.inj hplace'
  omega

end WordMachine.Assembly.SymbolTable
