import Mathlib.Data.Finset.Card
import WordMachine.Assembly.Effect
import WordMachine.Proofs.Assembly.Names

/-!
# Definitions one after the other

Whatever is defined, and in whatever order, the table holds the first definition of each name, in
the order of the definitions. Every later definition of the name is refused.
-/

namespace WordMachine.Assembly

namespace SymbolTable

def tryDefine (t : SymbolTable) (s : Symbol) : Except Cause Unit × SymbolTable :=
  match t.define s with
  | .ok t' => (.ok (), t')
  | .error cause => (.error cause, t)

def defineAll : SymbolTable → List Symbol → List (Except Cause Unit) × SymbolTable
  | t, [] => ([], t)
  | t, s :: calls =>
    let (answer, t') := t.tryDefine s
    let (answers, last) := t'.defineAll calls
    (answer :: answers, last)

/-- The table holds the first of the definitions of each name. -/
structure Follows (t : SymbolTable) (calls : List Symbol) : Prop where
  coherent : t.Coherent
  get? : ∀ name, t.get? name = calls.find? (·.name == name)
  size : t.size = (calls.map Symbol.name).toFinset.card

variable {t : SymbolTable} {s : Symbol} {calls : List Symbol} {name : String} {i : Nat}

theorem tryDefine_of_free (hfree : t.contains s.name = false) :
    t.tryDefine s = (.ok (), t.insert s) := by
  simp [tryDefine, define, hfree]

theorem tryDefine_of_taken (htaken : t.contains s.name = true) :
    t.tryDefine s = (.error (.duplicateDefinition s.name), t) := by
  simp [tryDefine, define, htaken]

theorem isSome_find?_name :
    (calls.find? (·.name == name)).isSome = true ↔ name ∈ calls.map Symbol.name := by
  simp only [List.find?_isSome, List.mem_map, beq_iff_eq]

theorem follows_empty : empty.Follows [] where
  coherent := coherent_empty
  get? name := by simp [SymbolTable.get?, empty]
  size := rfl

namespace Follows

theorem contains_iff (h : t.Follows calls) :
    t.contains name = true ↔ name ∈ calls.map Symbol.name := by
  rw [h.coherent.contains_eq_isSome_get?, h.get?, isSome_find?_name]

theorem contains_eq_false (h : t.Follows calls) (hname : name ∉ calls.map Symbol.name) :
    t.contains name = false := by
  rwa [← Bool.not_eq_true, h.contains_iff]

theorem insert (h : t.Follows calls) (hname : s.name ∉ calls.map Symbol.name) :
    (t.insert s).Follows (calls ++ [s]) where
  coherent := h.coherent.insert (h.contains_eq_false hname)
  get? name := by
    rw [h.coherent.get?_insert (h.contains_eq_false hname), h.get?, List.find?_append]
    by_cases heq : s.name = name
    · subst heq
      have hnone : calls.find? (·.name == s.name) = none :=
        Option.not_isSome_iff_eq_none.mp (mt isSome_find?_name.mp hname)
      simp [hnone]
    · simp [heq]
  size := by
    have hnew : s.name ∉ (calls.map Symbol.name).toFinset := mt List.mem_toFinset.mp hname
    rw [size_insert, h.size, List.map_append, List.toFinset_append]
    simp [hnew]

theorem taken (h : t.Follows calls) (hname : s.name ∈ calls.map Symbol.name) :
    t.Follows (calls ++ [s]) where
  coherent := h.coherent
  get? name := by
    rw [h.get?, List.find?_append]
    by_cases heq : s.name = name
    · subst heq
      obtain ⟨first, hfirst⟩ := Option.isSome_iff_exists.mp (isSome_find?_name.mpr hname)
      rw [hfirst, Option.some_or]
    · simp [heq]
  size := by
    have hold : s.name ∈ (calls.map Symbol.name).toFinset := List.mem_toFinset.mpr hname
    rw [h.size, List.map_append, List.toFinset_append]
    simp [hold]

theorem tryDefine_eq (h : t.Follows calls) (s : Symbol) : t.tryDefine s =
    if s.name ∈ calls.map Symbol.name then (.error (.duplicateDefinition s.name), t)
    else (.ok (), t.insert s) := by
  split
  · next hname => exact tryDefine_of_taken (h.contains_iff.mpr hname)
  · next hname => exact tryDefine_of_free (h.contains_eq_false hname)

theorem tryDefine (h : t.Follows calls) (s : Symbol) :
    (t.tryDefine s).2.Follows (calls ++ [s]) := by
  rw [h.tryDefine_eq s]
  split
  · next hname => exact h.taken hname
  · next hname => exact h.insert hname

end Follows

theorem defineAll_cons (t : SymbolTable) (s : Symbol) (calls : List Symbol) :
    t.defineAll (s :: calls) =
      ((t.tryDefine s).1 :: ((t.tryDefine s).2.defineAll calls).1,
        ((t.tryDefine s).2.defineAll calls).2) :=
  rfl

theorem defineAll_append (t : SymbolTable) (calls : List Symbol) (s : Symbol) :
    t.defineAll (calls ++ [s]) =
      ((t.defineAll calls).1 ++ [((t.defineAll calls).2.tryDefine s).1],
        ((t.defineAll calls).2.tryDefine s).2) := by
  induction calls generalizing t with
  | nil => rfl
  | cons first calls ih =>
    rw [List.cons_append, defineAll_cons, ih, defineAll_cons, List.cons_append]

theorem length_answers (t : SymbolTable) (calls : List Symbol) :
    (t.defineAll calls).1.length = calls.length := by
  induction calls generalizing t with
  | nil => rfl
  | cons first calls ih => rw [defineAll_cons, List.length_cons, ih, List.length_cons]

theorem follows_defineAll (calls : List Symbol) : (empty.defineAll calls).2.Follows calls := by
  -- on the last call, which the table that all the others left answers
  induction calls using List.reverseRecOn with
  | nil => exact follows_empty
  | append_singleton calls s ih =>
    rw [defineAll_append]
    exact ih.tryDefine s

theorem getElem?_answers (t : SymbolTable) (h : calls[i]? = some s) :
    (t.defineAll calls).1[i]? = some ((t.defineAll (calls.take i)).2.tryDefine s).1 := by
  induction calls generalizing t i with
  | nil => simp at h
  | cons first calls ih =>
    cases i with
    | zero =>
      obtain rfl : first = s := by simpa using h
      rfl
    | succ i => exact ih _ (by simpa using h)

theorem defineAll_take_succ (t : SymbolTable) (h : calls[i]? = some s) :
    (t.defineAll (calls.take (i + 1))).2 = ((t.defineAll (calls.take i)).2.tryDefine s).2 := by
  rw [List.take_add_one, h, Option.toList_some, defineAll_append]

theorem toList_defineAll (calls : List Symbol) : (empty.defineAll calls).2.toList =
    ((calls.zip (empty.defineAll calls).1).filter (·.2.isOk)).map Prod.fst := by
  induction calls using List.reverseRecOn with
  | nil => rfl
  | append_singleton calls s ih =>
    have hlength : calls.length = (empty.defineAll calls).1.length := (length_answers _ _).symm
    rw [defineAll_append, List.zip_append hlength, List.filter_append, List.map_append, ← ih,
      (follows_defineAll calls).tryDefine_eq s]
    split
    · simp [Except.isOk, Except.toBool]
    · simp [Except.isOk, Except.toBool]

theorem index_iff (h : t.Coherent) {place : Nat} : t.index[name]? = some place ↔
    ∃ hplace : place < t.entries.size, t.entries[place].name = name := by
  rw [h name place]
  constructor
  · rintro ⟨s, hentry, hname⟩
    obtain ⟨hplace, rfl⟩ := Array.getElem?_eq_some_iff.mp hentry
    exact ⟨hplace, hname⟩
  · rintro ⟨hplace, hname⟩
    exact ⟨t.entries[place], Array.getElem?_eq_getElem hplace, hname⟩

/-- A definition succeeds if and only if no earlier one had its name; otherwise it is refused and
leaves the table as it was. The table lists the definitions that succeeded in their order, finds the
first one of each name and counts the names. Its index leads to the one entry with the name. -/
theorem first_definitions_kept (calls : List Symbol) :
    let answers := (empty.defineAll calls).1
    let t := (empty.defineAll calls).2
    answers.length = calls.length ∧
    (∀ i s, calls[i]? = some s →
      (answers[i]? = some (.ok ()) ↔ s.name ∉ (calls.take i).map Symbol.name) ∧
      (s.name ∈ (calls.take i).map Symbol.name →
        answers[i]? = some (.error (.duplicateDefinition s.name)) ∧
        (empty.defineAll (calls.take (i + 1))).2 = (empty.defineAll (calls.take i)).2)) ∧
    t.toList = ((calls.zip answers).filter (·.2.isOk)).map Prod.fst ∧
    (∀ name, t.get? name = calls.find? (·.name == name)) ∧
    t.size = (calls.map Symbol.name).toFinset.card ∧
    (t.toList.map Symbol.name).Nodup ∧
    ∀ name place, t.index[name]? = some place ↔
      ∃ hplace : place < t.entries.size, t.entries[place].name = name := by
  intro answers t
  have hfollows : t.Follows calls := follows_defineAll calls
  refine ⟨length_answers empty calls, ?_, toList_defineAll calls, hfollows.get?, hfollows.size,
    hfollows.coherent.nodup, fun name place => index_iff hfollows.coherent⟩
  intro i s hcall
  have hbefore := follows_defineAll (calls.take i)
  have hanswer : answers[i]? = some ((empty.defineAll (calls.take i)).2.tryDefine s).1 :=
    getElem?_answers empty hcall
  rw [hanswer, defineAll_take_succ empty hcall, hbefore.tryDefine_eq s]
  by_cases hname : s.name ∈ (calls.take i).map Symbol.name
  · rw [if_pos hname]
    exact ⟨iff_of_false (by simp) (not_not_intro hname), fun _ => ⟨rfl, rfl⟩⟩
  · rw [if_neg hname]
    exact ⟨iff_of_true rfl hname, fun htaken => absurd htaken hname⟩

theorem first_definitions_kept_label :
    let calls : List Symbol := [⟨"x", .dataCell, 0xFFF⟩, ⟨"y", .constant, 1⟩, ⟨"x", .label, 3⟩]
    calls[2]? = some ⟨"x", .label, 3⟩ ∧ "x" ∈ (calls.take 2).map Symbol.name ∧
    (empty.defineAll calls).1[2]? = some (.error (.duplicateDefinition "x")) ∧
    (empty.defineAll (calls.take 3)).2 = (empty.defineAll (calls.take 2)).2 ∧
    (empty.defineAll calls).2.get? "x" = some ⟨"x", .dataCell, 0xFFF⟩ ∧
    (empty.defineAll calls).2.size = 2 := by
  intro calls
  have hcall : calls[2]? = some ⟨"x", .label, 3⟩ := rfl
  have htaken : "x" ∈ (calls.take 2).map Symbol.name := by decide
  obtain ⟨-, hanswers, -, hget, hsize, -⟩ := first_definitions_kept calls
  obtain ⟨hanswer, hsame⟩ := (hanswers 2 _ hcall).2 htaken
  exact ⟨hcall, htaken, hanswer, hsame, hget "x", hsize⟩

end SymbolTable

/-- A statement that defines a symbol is taken or refused as the table answers, and the draft then
has the table that the answer leaves. -/
theorem Draft.unlessDefined_eq_tryDefine (d : Draft) (s : Symbol) (e : Effect) :
    (d.unlessDefined s.name e = .ok e ∧
      d.symbols.tryDefine s = (.ok (), (d.define s).symbols)) ∨
    ∃ cause, d.unlessDefined s.name e = .error cause ∧
      d.symbols.tryDefine s = (.error cause, d.symbols) := by
  cases hname : d.symbols.contains s.name with
  | false =>
    refine .inl ⟨?_, SymbolTable.tryDefine_of_free hname⟩
    rw [unlessDefined, hname, if_neg Bool.false_ne_true]
  | true =>
    refine .inr ⟨.duplicateDefinition s.name, ?_, SymbolTable.tryDefine_of_taken hname⟩
    rw [unlessDefined, hname, if_pos rfl]

end WordMachine.Assembly
