import Mathlib.Data.List.Forall2
import Mathlib.Data.List.TakeWhile
import Mathlib.Logic.Equiv.Basic
import WordMachine.Assembly.Program
import WordMachine.Proofs.Assembly.Fields

/-!
# Renamings

A renaming takes fields to fields, different ones to different ones, and leaves alone what the
assembler knows by itself: numbers, mnemonics and keywords. A line is renamed field by field, in
place. What a line says is the same under other names.
-/

namespace WordMachine.Assembly

abbrev Field := { s : String // IsField s }

def keywords : List String :=
  Opcode.all.map Opcode.mnemonic ++ ["nop", "clr"] ++
    ["variable", "label", "allocate", "macro", ".set", ".constant", ".end"]

def IsReserved (s : String) : Prop := s.toList.head? = some '$' ∨ s ∈ keywords

instance (s : String) : Decidable (IsReserved s) := inferInstanceAs (Decidable (_ ∨ _))

/-- A renaming that fixes what is reserved takes nothing else to it. -/
structure Renaming where
  name : Field → Field
  injective : Function.Injective name
  fixes : ∀ f : Field, IsReserved f.val → name f = f

variable {s t : String} {f : String → String} {r : Renaming}

theorem number?_of_unreserved (h : ¬IsReserved s) : number? s = .ok none := by
  unfold number?
  split
  · rename_i cs hs
    exact absurd (.inl (by rw [hs]; rfl)) h
  · rfl

theorem ofKeyword?_of_unreserved (h : ¬IsReserved s) : Directive.ofKeyword? s = none := by
  have hs : s ∉ keywords := fun hs => h (.inr hs)
  simp only [keywords, List.mem_append, not_or, List.mem_cons] at hs
  simp [Directive.ofKeyword?, hs]

theorem pseudoWord?_of_unreserved (h : ¬IsReserved s) : pseudoWord? s = none := by
  have hs : s ∉ keywords := fun hs => h (.inr hs)
  simp only [keywords, List.mem_append, not_or, List.mem_cons] at hs
  simp [pseudoWord?, hs]

theorem ofMnemonic?_of_unreserved (h : ¬IsReserved s) : Opcode.ofMnemonic? s = none := by
  rw [Opcode.ofMnemonic?, List.find?_eq_none]
  intro opcode hopcode hname
  have hmem : s ∈ Opcode.all.map Opcode.mnemonic :=
    List.mem_map.mpr ⟨opcode, hopcode, of_decide_eq_true hname⟩
  exact h (.inr (List.mem_append_left _ (List.mem_append_left _ hmem)))

namespace Renaming

def word (r : Renaming) (s : String) : String := if h : IsField s then (r.name ⟨s, h⟩).val else s

theorem word_of_field (r : Renaming) (f : Field) : r.word f.val = (r.name f).val := by
  rw [word, dif_pos f.property]

theorem isField_word (r : Renaming) (s : String) : IsField (r.word s) ↔ IsField s := by
  unfold word
  split
  · rename_i h
    exact iff_of_true (r.name ⟨s, h⟩).property h
  · rfl

theorem word_injective (r : Renaming) : Function.Injective r.word := by
  intro s t h
  by_cases hs : IsField s
  · have ht : IsField t := by
      rwa [← r.isField_word, ← h, r.isField_word]
    rw [r.word_of_field ⟨s, hs⟩, r.word_of_field ⟨t, ht⟩] at h
    exact congrArg Subtype.val (r.injective (Subtype.ext h))
  · have ht : ¬IsField t := by
      rwa [← r.isField_word, ← h, r.isField_word]
    simpa [word, hs, ht] using h

theorem word_of_reserved (r : Renaming) (h : IsReserved s) : r.word s = s := by
  unfold word
  split
  · rename_i hs
    rw [r.fixes ⟨s, hs⟩ h]
  · rfl

theorem isReserved_word (r : Renaming) (s : String) : IsReserved (r.word s) ↔ IsReserved s := by
  constructor
  · intro h
    rwa [r.word_injective (r.word_of_reserved h)] at h
  · intro h
    rwa [r.word_of_reserved h]

theorem congr_word {α : Type} {g : String → α} {a : α} (r : Renaming)
    (h : ∀ s, ¬IsReserved s → g s = a) (s : String) : g (r.word s) = g s := by
  by_cases hs : IsReserved s
  · rw [r.word_of_reserved hs]
  · rw [h s hs, h _ (by rwa [r.isReserved_word])]

@[simp] theorem number?_word (r : Renaming) (s : String) : number? (r.word s) = number? s :=
  r.congr_word (fun _ => number?_of_unreserved) s

@[simp] theorem ofKeyword?_word (r : Renaming) (s : String) :
    Directive.ofKeyword? (r.word s) = Directive.ofKeyword? s :=
  r.congr_word (fun _ => ofKeyword?_of_unreserved) s

@[simp] theorem pseudoWord?_word (r : Renaming) (s : String) :
    pseudoWord? (r.word s) = pseudoWord? s :=
  r.congr_word (fun _ => pseudoWord?_of_unreserved) s

@[simp] theorem ofMnemonic?_word (r : Renaming) (s : String) :
    Opcode.ofMnemonic? (r.word s) = Opcode.ofMnemonic? s :=
  r.congr_word (fun _ => ofMnemonic?_of_unreserved) s

def exchange (a b : Field) (ha : ¬IsReserved a.val) (hb : ¬IsReserved b.val) : Renaming where
  name := Equiv.swap a b
  injective := (Equiv.swap a b).injective
  fixes := by
    intro f hf
    refine Equiv.swap_apply_of_ne_of_ne ?_ ?_
    · rintro rfl
      exact ha hf
    · rintro rfl
      exact hb hf

theorem exchange_left (a b : Field) (ha : ¬IsReserved a.val) (hb : ¬IsReserved b.val) :
    (exchange a b ha hb).word a.val = b.val := by
  rw [word_of_field]
  exact congrArg Subtype.val (Equiv.swap_apply_left a b)

/-- The line has the same fields under other names. -/
def Renames (r : Renaming) (line line' : String) : Prop :=
  tokenize line' = (tokenize line).map r.word

def put (r : Renaming) (field : List Char) : List Char :=
  (r.word (String.ofList field.reverse)).toList

/-- `field` holds what was read of a field, last character first. -/
def fieldsFrom (r : Renaming) : List Char → List Char → List Char
  | [], field => r.put field
  | c :: cs, field =>
    if Text.isBlank c then r.put field ++ c :: r.fieldsFrom cs [] else r.fieldsFrom cs (c :: field)

def line (r : Renaming) (l : String) : String :=
  String.ofList (r.fieldsFrom (l.toList.takeWhile (!startsComment ·)) [] ++
    l.toList.dropWhile (!startsComment ·))

variable {cs field : List Char}

def Solid (cs : List Char) : Prop :=
  ∀ c ∈ cs, Text.isBlank c = false ∧ startsComment c = false

theorem solid_nil : Solid [] := by simp [Solid]

theorem put_nil (r : Renaming) : r.put [] = [] := by
  have hempty : r.word "" = "" := by rw [word, dif_neg (by simp [IsField])]
  simp [put, hempty]

theorem solid_put (r : Renaming) (h : Solid field) : Solid (r.put field) := by
  unfold put word
  split
  · rename_i hs
    exact (r.name ⟨_, hs⟩).property.2
  · intro c hc
    exact h c (by simpa using hc)

theorem put_ne_nil (r : Renaming) (h : field ≠ []) : r.put field ≠ [] := by
  unfold put word
  split
  · rename_i hs
    exact (r.name ⟨_, hs⟩).property.1
  · simpa using h

theorem splitFields_solid (hcs : Solid cs) (hne : cs ≠ []) : Text.splitFields cs = [cs] :=
  Text.splitFields_singleton (fun c hc => (hcs c hc).1) hne

theorem splitFields_fieldsFrom (r : Renaming) (hcs : ∀ c ∈ cs, startsComment c = false)
    (hfield : Solid field) : Text.splitFields (r.fieldsFrom cs field) =
      (Text.splitFieldsFrom cs field []).map fun f => (r.word (String.ofList f)).toList := by
  induction cs generalizing field with
  | nil =>
    cases field with
    | nil => simp [fieldsFrom, r.put_nil, Text.splitFields, Text.splitFieldsFrom]
    | cons a field =>
      rw [fieldsFrom, splitFields_solid (r.solid_put hfield) (r.put_ne_nil (by simp))]
      simp [Text.splitFieldsFrom, put]
  | cons c cs ih =>
    obtain ⟨hc, hcs⟩ := List.forall_mem_cons.mp hcs
    rw [fieldsFrom, Text.splitFieldsFrom]
    split
    · rename_i hblank
      rw [Text.splitFieldsFrom_eq_append, List.map_append, ← ih hcs solid_nil]
      cases field with
      | nil => simp [r.put_nil, Text.splitFields, Text.splitFieldsFrom, hblank]
      | cons a field =>
        rw [Text.splitFields_append_cons (fun x hx => (r.solid_put hfield x hx).1)
          (r.put_ne_nil (by simp)) hblank]
        simp [put]
    · rename_i hblank
      exact ih hcs (List.forall_mem_cons.mpr ⟨⟨by simpa using hblank, hc⟩, hfield⟩)

theorem startsComment_fieldsFrom (r : Renaming) (hcs : ∀ c ∈ cs, startsComment c = false)
    (hfield : Solid field) : ∀ c ∈ r.fieldsFrom cs field, startsComment c = false := by
  induction cs generalizing field with
  | nil => exact fun c hc => (r.solid_put hfield c hc).2
  | cons c cs ih =>
    obtain ⟨hc, hcs⟩ := List.forall_mem_cons.mp hcs
    rw [fieldsFrom]
    split
    · exact List.forall_mem_append.mpr ⟨fun x hx => (r.solid_put hfield x hx).2,
        List.forall_mem_cons.mpr ⟨hc, ih hcs solid_nil⟩⟩
    · rename_i hblank
      exact ih hcs (List.forall_mem_cons.mpr ⟨⟨by simpa using hblank, hc⟩, hfield⟩)

theorem stripComment_ofList (hcs : ∀ c ∈ cs, startsComment c = false) (l : String) :
    stripComment (String.ofList (cs ++ l.toList.dropWhile (!startsComment ·))) =
      String.ofList cs := by
  have hcomment : IsComment (String.ofList (l.toList.dropWhile (!startsComment ·))) := by
    have hhead := List.head?_dropWhile_not (!startsComment ·) l.toList
    intro c hc
    rw [String.toList_ofList, Option.mem_def] at hc
    rw [hc] at hhead
    simpa using hhead
  have hopen : ∀ c ∈ (String.ofList cs).toList, startsComment c = false := by
    rwa [String.toList_ofList]
  rw [String.ofList_append, stripComment_append hopen hcomment]

theorem renames_line (r : Renaming) (l : String) : r.Renames l (r.line l) := by
  have hcs : ∀ c ∈ l.toList.takeWhile (!startsComment ·), startsComment c = false := by
    intro c hc
    simpa using List.mem_takeWhile_imp hc
  rw [Renames, line, tokenize, stripComment_ofList (r.startsComment_fieldsFrom hcs solid_nil),
    Text.fields, String.toList_ofList, r.splitFields_fieldsFrom hcs solid_nil]
  simp [tokenize, Text.fields, stripComment, Text.splitFields]

end Renaming

def Cause.mapNames (f : String → String) : Cause → Cause
  | spaceExhausted => spaceExhausted
  | operandTooLarge value => operandTooLarge value
  | unknownCommand name => unknownCommand (f name)
  | duplicateDefinition name => duplicateDefinition (f name)
  | unresolvedReference name => unresolvedReference (f name)
  | unterminatedMacro name => unterminatedMacro (f name)
  | malformedNumber token => malformedNumber (f token)
  | missingOperand name => missingOperand (f name)
  | tooManyFields count => tooManyFields count
  | undefinedSymbol name => undefinedSymbol (f name)
  | notAConstant name => notAConstant (f name)
  | addressOutOfRange value => addressOutOfRange value
  | strayEnd => strayEnd
  | nestedMacro name => nestedMacro (f name)
  | macroDepthExceeded name limit => macroDepthExceeded (f name) limit

def Location.mapNames (f : String → String) (l : Location) : Location :=
  { l with inMacro := l.inMacro.map f }

def Error.mapNames (f : String → String) (e : Error) : Error :=
  ⟨e.cause.mapNames f, e.location.map (Location.mapNames f)⟩

def Statement.mapNames (f : String → String) : Statement → Statement
  | blank => blank
  | single field => single (f field)
  | beginMacro name => beginMacro (f name)
  | dataCell name => dataCell (f name)
  | label name => label (f name)
  | allocate count => allocate (f count)
  | instruction opcode operand => instruction opcode (f operand)
  | set target value => set (f target) (f value)
  | constant name value => constant (f name) (f value)

/-- Both are errors, and these correspond, or both are results, and these do. -/
inductive Corresponds {ε α β : Type} (E : ε → ε → Prop) (R : α → β → Prop) :
    Except ε α → Except ε β → Prop
  | error {e e' : ε} (h : E e e') : Corresponds E R (.error e) (.error e')
  | ok {a : α} {b : β} (h : R a b) : Corresponds E R (.ok a) (.ok b)

namespace Corresponds

variable {ε α β γ δ : Type} {E : ε → ε → Prop} {R : α → β → Prop} {S : γ → δ → Prop}
  {x : Except ε α} {y : Except ε β}

theorem of_error {e : ε} (h : Corresponds E R x y) (hx : x = .error e) :
    ∃ e', y = .error e' ∧ E e e' := by
  subst hx
  cases h with
  | error he => exact ⟨_, rfl, he⟩

theorem of_ok {a : α} (h : Corresponds E R x y) (hx : x = .ok a) : ∃ b, y = .ok b ∧ R a b := by
  subst hx
  cases h with
  | ok hab => exact ⟨_, rfl, hab⟩

theorem map {f : α → γ} {g : β → δ} (h : Corresponds E R x y)
    (hfg : ∀ a b, R a b → S (f a) (g b)) : Corresponds E S (x.map f) (y.map g) := by
  cases h with
  | error he => exact .error he
  | ok hab => exact .ok (hfg _ _ hab)

theorem imp {S : α → β → Prop} (h : Corresponds E R x y) (hRS : ∀ a b, R a b → S a b) :
    Corresponds E S x y := by
  cases h with
  | error he => exact .error he
  | ok hab => exact .ok (hRS _ _ hab)

theorem refl {E : ε → ε → Prop} {R : α → α → Prop} (hE : ∀ e, E e e) (hR : ∀ a, R a a)
    (x : Except ε α) : Corresponds E R x x := by
  cases x with
  | error e => exact .error (hE e)
  | ok a => exact .ok (hR a)

end Corresponds

namespace Renaming

def Causes (r : Renaming) (c c' : Cause) : Prop := c' = c.mapNames r.word

def Statements (r : Renaming) (s s' : Statement) : Prop := s' = s.mapNames r.word

theorem ofPair_word (r : Renaming) (first second : String) :
    Corresponds r.Causes r.Statements (Statement.ofPair first second)
      (Statement.ofPair (r.word first) (r.word second)) := by
  unfold Statement.ofPair
  rw [r.ofKeyword?_word, r.ofMnemonic?_word]
  cases Directive.ofKeyword? first with
  | some directive =>
    cases directive <;> constructor <;> rfl
  | none =>
    cases Opcode.ofMnemonic? first <;> constructor <;> rfl

theorem ofTriple_word (r : Renaming) (first second third : String) :
    Corresponds r.Causes r.Statements (Statement.ofTriple first second third)
      (Statement.ofTriple (r.word first) (r.word second) (r.word third)) := by
  unfold Statement.ofTriple
  rw [r.ofKeyword?_word]
  cases Directive.ofKeyword? first with
  | some directive =>
    cases directive <;> constructor <;> rfl
  | none => exact .error rfl

theorem ofFields_word (r : Renaming) (fields : List String) :
    Corresponds r.Causes r.Statements (Statement.ofFields fields)
      (Statement.ofFields (fields.map r.word)) := by
  match fields with
  | [] => exact .ok rfl
  | [field] => exact .ok rfl
  | [first, second] => exact r.ofPair_word first second
  | [first, second, third] => exact r.ofTriple_word first second third
  | _ :: _ :: _ :: _ :: fields => 
    refine .error ?_
    simp [Causes, Cause.mapNames]

end Renaming

theorem captureBody_cons (l : String) (ls : List String) : captureBody (l :: ls) =
    if closesMacro l then some ([], ls)
    else (captureBody ls).map fun parts => (l :: parts.1, parts.2) := by
  cases h : closesMacro l with
  | true => simp [captureBody, h]
  | false =>
    simp only [captureBody, List.dropWhile_cons, List.takeWhile_cons, h, Bool.not_false, if_true,
      Bool.false_eq_true, if_false]
    cases ls.dropWhile (!closesMacro ·) <;> rfl

namespace Renaming

theorem closesMacro_of_renames {l l' : String} (h : r.Renames l l') :
    closesMacro l' = closesMacro l := by
  unfold closesMacro
  rw [h]
  cases tokenize l with
  | nil => rfl
  | cons first fields => simp

def Parts (r : Renaming) (x y : List String × List String) : Prop :=
  List.Forall₂ r.Renames x.1 y.1 ∧ List.Forall₂ r.Renames x.2 y.2

theorem captureBody_renames {ls ls' : List String} (h : List.Forall₂ r.Renames ls ls') :
    Option.Rel r.Parts (captureBody ls) (captureBody ls') := by
  induction h with
  | nil => exact .none
  | @cons l l' ls ls' hl hls ih =>
    rw [captureBody_cons, captureBody_cons, closesMacro_of_renames hl]
    split
    · exact .some ⟨.nil, hls⟩
    · generalize captureBody ls = parts, captureBody ls' = parts' at ih ⊢
      cases ih with
      | none => exact .none
      | some hparts => exact .some ⟨.cons hl hparts.1, hparts.2⟩

end Renaming

end WordMachine.Assembly
