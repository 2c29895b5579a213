import WordMachine.Text.Column

/-!
# Texts of lines and of fields

A text that is put together of lines, each ended by a line feed, is split into these lines again,
and one that starts with a field and a blank into this field and the fields of the rest.
-/

namespace WordMachine.Text

def Unbroken (s : String) : Prop := ∀ c ∈ s.toList, c ≠ '\n' ∧ c ≠ '\r'

def unlines (lines : List String) : String := String.join (lines.map (· ++ "\n"))

theorem splitLinesFrom_append {cs : List Char} (hcs : ∀ c ∈ cs, c ≠ '\n') (rest line : List Char)
    (lines : List String) :
    splitLinesFrom (cs ++ rest) line lines = splitLinesFrom rest (cs.reverse ++ line) lines := by
  induction cs generalizing line with
  | nil => rfl
  | cons c cs ih =>
    obtain ⟨hc, hcs⟩ := List.forall_mem_cons.mp hcs
    rw [List.cons_append, splitLinesFrom, if_neg hc, ih hcs]
    simp

theorem closeLine_reverse {cs : List Char} (hcs : '\r' ∉ cs) :
    closeLine cs.reverse = String.ofList cs := by
  unfold closeLine
  split
  · rename_i rest hreverse
    have hmem : '\r' ∈ cs.reverse := by simp [hreverse]
    exact absurd (List.mem_reverse.mp hmem) hcs
  · rw [List.reverse_reverse]

theorem lines_cons {l : String} (hl : Unbroken l) (rest : String) :
    lines (l ++ "\n" ++ rest) = l :: lines rest := by
  have htext : (l ++ "\n" ++ rest).toList = l.toList ++ '\n' :: rest.toList := by simp
  have hreturn : '\r' ∉ l.toList := fun hmem => (hl _ hmem).2 rfl
  rw [lines, htext, splitLinesFrom_append fun c hc => (hl c hc).1, splitLinesFrom, if_pos rfl,
    List.append_nil, closeLine_reverse hreturn, splitLinesFrom_eq_append]
  simp [lines]

theorem lines_unlines {ls : List String} (hls : ∀ l ∈ ls, Unbroken l) : lines (unlines ls) = ls := by
  induction ls with
  | nil => rfl
  | cons l ls ih =>
    obtain ⟨hl, hls⟩ := List.forall_mem_cons.mp hls
    have hsplit : unlines (l :: ls) = l ++ "\n" ++ unlines ls := by simp [unlines]
    rw [hsplit, lines_cons hl, ih hls]

theorem splitFieldsFrom_append {f : List Char} (hf : ∀ c ∈ f, isBlank c = false)
    (cs field : List Char) (fields : List (List Char)) :
    splitFieldsFrom (f ++ cs) field fields = splitFieldsFrom cs (f.reverse ++ field) fields := by
  induction f generalizing field with
  | nil => rfl
  | cons c f ih =>
    have hc : isBlank c = false := hf c List.mem_cons_self
    rw [List.cons_append, splitFieldsFrom, hc, if_neg Bool.false_ne_true,
      ih fun x hx => hf x (List.mem_cons_of_mem _ hx)]
    simp

theorem splitFields_append_cons {f : List Char} {b : Char} (hf : ∀ c ∈ f, isBlank c = false)
    (hne : f ≠ []) (hb : isBlank b = true) (cs : List Char) :
    splitFields (f ++ b :: cs) = f :: splitFields cs := by
  have hfield : f.reverse.isEmpty = false := by simpa using hne
  rw [splitFields, splitFieldsFrom_append hf, List.append_nil, splitFieldsFrom, if_pos hb,
    hfield, if_neg Bool.false_ne_true, splitFieldsFrom_eq_append]
  simp [splitFields]

theorem splitFields_singleton {f : List Char} (hf : ∀ c ∈ f, isBlank c = false) (hne : f ≠ []) :
    splitFields f = [f] := by
  have happend := splitFieldsFrom_append hf [] [] []
  rw [List.append_nil] at happend
  rw [splitFields, happend]
  simp [splitFieldsFrom, hne]

end WordMachine.Text
