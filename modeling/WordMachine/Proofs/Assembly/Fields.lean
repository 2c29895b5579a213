import Mathlib.Data.Nat.Cast.Order.Basic
import WordMachine.Assembly.Statement
import WordMachine.Proofs.Text.Splitting

/-!
# Lines laid out

A line is fields with blanks between and around them and a comment at the end. Its fields are read
off again however it is laid out, and every line is laid out in this way.
-/

namespace WordMachine

namespace Text

variable {cs field gap : List Char}

theorem splitFields_blank_append (hgap : ∀ c ∈ gap, isBlank c = true) (cs : List Char) :
    splitFields (gap ++ cs) = splitFields cs := by
  induction gap with
  | nil => rfl
  | cons c gap ih =>
    obtain ⟨hc, hgap⟩ := List.forall_mem_cons.mp hgap
    rw [List.cons_append, splitFields, splitFieldsFrom, if_pos hc]
    exact ih hgap

theorem splitFields_eq_nil (hgap : ∀ c ∈ gap, isBlank c = true) : splitFields gap = [] := by
  have hnone := splitFields_blank_append hgap []
  rwa [List.append_nil] at hnone

theorem splitFields_field_append (hfield : ∀ c ∈ field, isBlank c = false) (hne : field ≠ [])
    (hgap : ∀ c ∈ gap, isBlank c = true) (hends : gap ≠ [] ∨ cs = []) :
    splitFields (field ++ (gap ++ cs)) = field :: splitFields cs := by
  cases gap with
  | nil =>
    obtain rfl : cs = [] := by simpa using hends
    rw [List.nil_append, List.append_nil, splitFields_singleton hfield hne,
      splitFields_eq_nil (by simp)]
  | cons b gap =>
    obtain ⟨hb, hgap⟩ := List.forall_mem_cons.mp hgap
    rw [List.cons_append, splitFields_append_cons hfield hne hb, splitFields_blank_append hgap]

end Text

namespace Assembly

/-- What can stand as a field of a line. -/
def IsField (s : String) : Prop :=
  s.toList ≠ [] ∧ ∀ c ∈ s.toList, Text.isBlank c = false ∧ startsComment c = false

instance (s : String) : Decidable (IsField s) := inferInstanceAs (Decidable (_ ∧ _))

def IsGap (s : String) : Prop := ∀ c ∈ s.toList, Text.isBlank c = true

/-- The rest of a line from a comment marker on, or nothing. -/
def IsComment (s : String) : Prop := ∀ c ∈ s.toList.head?, startsComment c = true

def weave : List String → List String → String
  | [], _ => ""
  | field :: fields, [] => field ++ weave fields []
  | field :: fields, gap :: gaps => field ++ gap ++ weave fields gaps

/-- A line as it is laid out. Two fields have blanks between them. -/
structure Line where
  leading : String := ""
  fields : List String := []
  gaps : List String := []
  trailing : String := ""
  comment : String := ""
  isGap_leading : IsGap leading := by simp [IsGap]
  isField : ∀ f ∈ fields, IsField f := by simp
  length_gaps : gaps.length = fields.length - 1 := by simp
  isGap : ∀ gap ∈ gaps, IsGap gap ∧ gap ≠ "" := by simp
  isGap_trailing : IsGap trailing := by simp [IsGap]
  isComment : IsComment comment := by simp [IsComment]

def Line.text (l : Line) : String :=
  l.leading ++ weave l.fields l.gaps ++ l.trailing ++ l.comment

variable {f s gap trailing comment line : String} {fields gaps : List String} {c : Char}

theorem startsComment_of_isBlank (h : Text.isBlank c = true) : startsComment c = false := by
  rw [startsComment, Bool.or_eq_false_iff, beq_eq_false_iff_ne, beq_eq_false_iff_ne]
  constructor <;> rintro rfl <;> exact absurd h (by decide)

theorem startsComment_of_isGap (h : IsGap s) : ∀ c ∈ s.toList, startsComment c = false :=
  fun c hc => startsComment_of_isBlank (h c hc)

theorem startsComment_of_weave (hfields : ∀ f ∈ fields, IsField f) (hgaps : ∀ gap ∈ gaps, IsGap gap) :
    ∀ c ∈ (weave fields gaps).toList, startsComment c = false := by
  induction fields generalizing gaps with
  | nil => simp [weave]
  | cons field fields ih =>
    obtain ⟨hfield, hfields⟩ := List.forall_mem_cons.mp hfields
    have hopen : ∀ c ∈ field.toList, startsComment c = false := fun c hc => (hfield.2 c hc).2
    cases gaps with
    | nil =>
      rw [weave, String.toList_append]
      exact List.forall_mem_append.mpr ⟨hopen, ih hfields (by simp)⟩
    | cons gap gaps =>
      obtain ⟨hgap, hgaps⟩ := List.forall_mem_cons.mp hgaps
      rw [weave, String.toList_append, String.toList_append]
      exact List.forall_mem_append.mpr
        ⟨List.forall_mem_append.mpr ⟨hopen, startsComment_of_isGap hgap⟩, ih hfields hgaps⟩

theorem stripComment_append (hopen : ∀ c ∈ s.toList, startsComment c = false)
    (hcomment : IsComment comment) : stripComment (s ++ comment) = s := by
  have hrest : comment.toList.takeWhile (!startsComment ·) = [] := by
    cases hchars : comment.toList with
    | nil => rfl
    | cons c cs =>
      have hc : startsComment c = true := hcomment c (by rw [hchars]; rfl)
      simp [hc]
  rw [stripComment, String.toList_append,
    List.takeWhile_append_of_pos fun c hc => by simp [hopen c hc], hrest, List.append_nil,
    String.ofList_toList]

theorem splitFields_weave (hfields : ∀ f ∈ fields, IsField f)
    (hlength : gaps.length = fields.length - 1) (hgaps : ∀ gap ∈ gaps, IsGap gap ∧ gap ≠ "")
    (htrailing : IsGap trailing) :
    Text.splitFields ((weave fields gaps).toList ++ trailing.toList) =
      fields.map String.toList := by
  induction fields generalizing gaps with
  | nil =>
    rw [weave, String.toList_empty, List.nil_append, Text.splitFields_eq_nil htrailing]
    rfl
  | cons field fields ih =>
    obtain ⟨hfield, hfields⟩ := List.forall_mem_cons.mp hfields
    have hsolid : ∀ c ∈ field.toList, Text.isBlank c = false := fun c hc => (hfield.2 c hc).1
    cases gaps with
    | nil =>
      obtain rfl : fields = [] := by simpa using hlength.symm
      have hnone : Text.splitFields [] = [] := rfl
      have hlast := Text.splitFields_field_append hsolid hfield.1 htrailing (.inr rfl)
      rw [List.append_nil, hnone] at hlast
      simpa [weave] using hlast
    | cons gap gaps =>
      obtain ⟨⟨hgap, hne⟩, hgaps⟩ := List.forall_mem_cons.mp hgaps
      have hlength' : gaps.length = fields.length - 1 := by
        rw [List.length_cons, List.length_cons] at hlength
        omega
      rw [weave, String.toList_append, String.toList_append, List.append_assoc, List.append_assoc,
        Text.splitFields_field_append hsolid hfield.1 hgap (.inl (by simpa using hne)),
        ih hfields hlength' hgaps, List.map_cons]

theorem tokenize_text (l : Line) : tokenize l.text = l.fields := by
  have hopen : ∀ c ∈ (l.leading ++ weave l.fields l.gaps ++ l.trailing).toList,
      startsComment c = false := by
    rw [String.toList_append, String.toList_append]
    exact List.forall_mem_append.mpr ⟨List.forall_mem_append.mpr
      ⟨startsComment_of_isGap l.isGap_leading,
        startsComment_of_weave l.isField fun gap hgap => (l.isGap gap hgap).1⟩,
      startsComment_of_isGap l.isGap_trailing⟩
  rw [tokenize, Line.text, stripComment_append hopen l.isComment, Text.fields, String.toList_append,
    String.toList_append, List.append_assoc, Text.splitFields_blank_append l.isGap_leading,
    splitFields_weave l.isField l.length_gaps l.isGap l.isGap_trailing, List.map_map]
  simp [Function.comp_def]

theorem isField_singleton (hblank : Text.isBlank c = false) (hmark : startsComment c = false) :
    IsField (String.singleton c) := by
  simp [IsField, hblank, hmark]

theorem IsField.append {t : String} (hs : IsField s) (ht : IsField t) : IsField (s ++ t) := by
  rw [IsField, String.toList_append]
  exact ⟨List.append_ne_nil_of_left_ne_nil hs.1 _, List.forall_mem_append.mpr ⟨hs.2, ht.2⟩⟩

theorem weave_append (s field : String) (fields gaps : List String) :
    weave ((s ++ field) :: fields) gaps = s ++ weave (field :: fields) gaps := by
  cases gaps with
  | nil => simp only [weave, String.append_assoc]
  | cons gap gaps => simp only [weave, String.append_assoc]

theorem exists_line_field (hblank : Text.isBlank c = false) (hmark : startsComment c = false)
    (l : Line) : ∃ l' : Line, l'.text = String.singleton c ++ l.text := by
  have hc := isField_singleton hblank hmark
  obtain ⟨leading, fields, gaps, trailing, comment, hleading, hfields, hlength, hgaps, htrailing,
    hcomment⟩ := l
  cases fields with
  | nil =>
    obtain rfl : gaps = [] := by simpa using hlength
    have hblanks : IsGap (leading ++ trailing) := by
      rw [IsGap, String.toList_append]
      exact List.forall_mem_append.mpr ⟨hleading, htrailing⟩
    refine ⟨{
      fields := [String.singleton c], trailing := leading ++ trailing, comment := comment,
      isField := by simpa using hc, isGap_trailing := hblanks, isComment := hcomment }, ?_⟩
    simp [Line.text, weave, String.append_assoc]
  | cons field fields =>
    obtain ⟨hfield, hrest⟩ := List.forall_mem_cons.mp hfields
    by_cases hempty : leading = ""
    · subst hempty
      refine ⟨{
        fields := (String.singleton c ++ field) :: fields, gaps := gaps, trailing := trailing,
        comment := comment, isField := List.forall_mem_cons.mpr ⟨hc.append hfield, hrest⟩,
        length_gaps := hlength, isGap := hgaps, isGap_trailing := htrailing,
        isComment := hcomment }, ?_⟩
      simp [Line.text, weave_append, String.append_assoc]
    · refine ⟨{
        fields := String.singleton c :: field :: fields, gaps := leading :: gaps,
        trailing := trailing, comment := comment,
        isField := List.forall_mem_cons.mpr ⟨hc, hfields⟩,
        length_gaps := by simpa using hlength,
        isGap := List.forall_mem_cons.mpr ⟨⟨hleading, hempty⟩, hgaps⟩,
        isGap_trailing := htrailing, isComment := hcomment }, ?_⟩
      simp [Line.text, weave, String.append_assoc]

theorem exists_line_cons (c : Char) (l : Line) :
    ∃ l' : Line, l'.text = String.singleton c ++ l.text := by
  cases hmark : startsComment c with
  | true =>
    refine ⟨{ comment := String.singleton c ++ l.text, isComment := ?_ }, ?_⟩
    · simp [IsComment, hmark]
    · simp [Line.text, weave]
  | false =>
    cases hblank : Text.isBlank c with
    | true =>
      refine ⟨{ l with leading := String.singleton c ++ l.leading, isGap_leading := ?_ }, ?_⟩
      · simpa [IsGap, hblank] using l.isGap_leading
      · simp [Line.text, String.append_assoc]
    | false => exact exists_line_field hblank hmark l

theorem exists_line (line : String) : ∃ l : Line, l.text = line := by
  have hchars : ∀ cs : List Char, ∃ l : Line, l.text = String.ofList cs := by
    -- from the end of the line, for what a character belongs to depends on what follows it
    intro cs
    induction cs with
    | nil => exact ⟨{}, by simp [Line.text, weave]⟩
    | cons c cs ih =>
      obtain ⟨l, hl⟩ := ih
      obtain ⟨l', hl'⟩ := exists_line_cons c l
      exact ⟨l', by rw [hl', hl, String.ofList_cons]⟩
  simpa using hchars line.toList

theorem isField_of_mem_tokenize (hf : f ∈ tokenize line) : IsField f := by
  obtain ⟨l, rfl⟩ := exists_line line
  rw [tokenize_text] at hf
  exact l.isField f hf

theorem weave_replicate (fields : List String) :
    weave fields (List.replicate (fields.length - 1) " ") = " ".intercalate fields := by
  induction fields with
  | nil => rfl
  | cons field fields ih =>
    cases fields with
    | nil => simp [weave]
    | cons next fields =>
      rw [String.intercalate_cons_cons, ← ih]
      rfl

theorem tokenize_intercalate (hfields : ∀ f ∈ fields, IsField f) :
    tokenize (" ".intercalate fields) = fields := by
  have hspace : ∀ gap ∈ List.replicate (fields.length - 1) " ", IsGap gap ∧ gap ≠ "" := by
    intro gap hgap
    obtain rfl := List.eq_of_mem_replicate hgap
    exact ⟨by simp [IsGap, Text.isBlank], by decide⟩
  have htext := tokenize_text {
    fields := fields, gaps := List.replicate (fields.length - 1) " ", isField := hfields,
    length_gaps := List.length_replicate, isGap := hspace }
  simpa [Line.text, weave_replicate] using htext

/-- However a line is laid out, its fields are read off. Every line is laid out so, as what is read
off shows, and its fields with single spaces between them are a line with the same fields. -/
theorem tokenize_inverts_layout :
    (∀ l : Line, tokenize l.text = l.fields) ∧
    ∀ line,
      (∀ f ∈ tokenize line, IsField f) ∧
      (∃ l : Line, l.text = line ∧ l.fields = tokenize line) ∧
      tokenize (" ".intercalate (tokenize line)) = tokenize line := by
  refine ⟨tokenize_text, fun line => ⟨fun f hf => isField_of_mem_tokenize hf, ?_,
    tokenize_intercalate fun f hf => isField_of_mem_tokenize hf⟩⟩
  obtain ⟨l, hl⟩ := exists_line line
  exact ⟨l, hl, by rw [← hl, tokenize_text]⟩

theorem tokenize_inverts_layout_wide :
    let l : Line := {
      leading := "\u3000", fields := ["store", "$f00"], gaps := ["\u00a0\t"], trailing := "\u2028",
      comment := ";# twice",
      isGap_leading := by simp [IsGap, Text.isBlank],
      isField := by simp [IsField, Text.isBlank, startsComment],
      isGap := by simp [IsGap, Text.isBlank],
      isGap_trailing := by simp [IsGap, Text.isBlank],
      isComment := by simp [IsComment, startsComment] }
    tokenize l.text = ["store", "$f00"] ∧ "store" ∈ tokenize l.text ∧ IsField "store" ∧
    tokenize (" ".intercalate (tokenize l.text)) = ["store", "$f00"] := by
  intro l
  obtain ⟨hlaid, hlines⟩ := tokenize_inverts_layout
  obtain ⟨hfields, -, hagain⟩ := hlines l.text
  have htext : tokenize l.text = ["store", "$f00"] := hlaid l
  have hmem : "store" ∈ tokenize l.text := by
    rw [htext]
    exact List.mem_cons_self
  exact ⟨htext, hmem, hfields "store" hmem, hagain.trans htext⟩

end Assembly

end WordMachine
