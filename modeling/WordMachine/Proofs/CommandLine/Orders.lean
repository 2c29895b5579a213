import Mathlib.Data.List.Basic
import WordMachine.CommandLine.Request
import WordMachine.Proofs.Assembly.Effects
import WordMachine.Proofs.Text.Octets

/-!
# Orders of options

A request does not depend on the order of its arguments, where an option stays with its value. Two
items for different fields can be gathered in either order. Two for the same field are refused or
say the same, unless the second replaces the first, and that takes an option that is given twice.
-/

namespace WordMachine.CommandLine

inductive Field
  | input
  | format
  | output
  | cycles
  | trace
  | verbose
  | switches
  deriving DecidableEq, Repr

/-- An argument that stands alone, or an option with its value. -/
inductive Group
  | input (path : Octets)
  | flag (name : String)
  | valued (name : String) (value : Octets)
  deriving DecidableEq, Repr

def optionField? : String → Option Field
  | "-o" | "--output" => some .output
  | "-c" | "--cycles" => some .cycles
  | "--switches" => some .switches
  | _ => none

namespace Group

def arguments : Group → List Octets
  | input path => [path]
  | flag name => [Octets.ofString name]
  | valued name value => [Octets.ofString name, value]

def field? : Group → Option Field
  | input _ | flag _ => none
  | valued name _ => optionField? name

/-- A group of a command that has these flags and options. The value may be anything. -/
def Of (flags options : List String) : Group → Prop
  | input path => path.head? ≠ some 0x2D
  | flag name => name ∈ flags
  | valued name _ => name ∈ options

end Group

def runFlags : List String := ["-t", "--trace", "--asm", "--hex"]

def runOptions : List String := ["-o", "--output", "-c", "--cycles", "--switches"]

def buildFlags : List String := ["-v", "--verbose"]

def buildOptions : List String := ["-o", "--output"]

namespace Item

def field? : Item → Option Field
  | input _ => some .input
  | format _ => some .format
  | output _ => some .output
  | cycles _ => some .cycles
  | trace => some .trace
  | verbose => some .verbose
  | switches _ => some .switches
  | help | unknown _ | valueless _ => none

/-- The field in which an item replaces an earlier value. -/
def replaced? : Item → Option Field
  | output _ => some .output
  | cycles _ => some .cycles
  | switches _ => some .switches
  | _ => none

def Fits : Item → Gathered → Prop
  | verbose, _ | trace, _ | output _, _ => True
  | format f, g => g.format = none ∨ g.format = some f
  | cycles text, _ => (Text.Decimal.count? text).isSome
  | switches text, _ => (readSwitches? text).isSome
  | input _, g => g.input = none
  | help, _ | unknown _, _ | valueless _, _ => False

def put : Item → Gathered → Gathered
  | verbose, g => { g with verbose := true }
  | trace, g => { g with trace := true }
  | format f, g => { g with format := some f }
  | output path, g => { g with output := some path }
  | cycles text, g =>
    { g with
      maxCycles := (Text.Decimal.count? text).bind fun n => if n = 0 then none else some n }
  | switches text, g => { g with switches := (readSwitches? text).getD 0 }
  | input path, g => { g with input := some path }
  | help, g | unknown _, g | valueless _, g => g

variable {a b : Item} {g g' : Gathered}

theorem gather_eq_ok_iff : g.gather a = .ok g' ↔ a.Fits g ∧ g' = a.put g := by
  rw [@eq_comm _ g']
  cases a with
  | help | unknown | valueless => simp [Gathered.gather, Fits]
  | verbose | trace | output => simp [Gathered.gather, Fits, put]
  | format f =>
    cases hformat : g.format with
    | none => simp [Gathered.gather, Fits, put, hformat]
    | some f' => by_cases hf : f' = f <;> simp [Gathered.gather, Fits, put, hformat, hf]
  | cycles text =>
    cases hcount : Text.Decimal.count? text <;> simp [Gathered.gather, Fits, put, hcount]
  | switches text =>
    cases hread : readSwitches? text <;> simp [Gathered.gather, Fits, put, hread]
  | input path => cases hinput : g.input <;> simp [Gathered.gather, Fits, put, hinput]

theorem fits_put_iff (h : a.field? ≠ b.field?) : a.Fits (b.put g) ↔ a.Fits g := by
  cases a <;> cases b <;> first | rfl | exact absurd rfl h

theorem put_comm (h : a.field? ≠ b.field?) : a.put (b.put g) = b.put (a.put g) := by
  cases a <;> cases b <;> first | rfl | exact absurd rfl h

theorem eq_of_fits (ha : a.Fits g) (hb : b.Fits (a.put g)) (hfield : a.field? = b.field?)
    (honce : ∀ f, a.replaced? = some f → b.replaced? ≠ some f) : a = b := by
  cases a with
  | help | unknown | valueless => exact ha.elim
  | verbose | trace => cases b <;> first | rfl | nomatch hfield
  | output | cycles | switches =>
    cases b <;> first | exact absurd rfl (honce _ rfl) | nomatch hfield
  | input path =>
    -- a second input is refused, and so is a second format below if it is another one
    cases b with
    | input path' => nomatch hb
    | _ => nomatch hfield
  | format f =>
    cases b with
    | format f' =>
      obtain hnone | hsome := hb
      · nomatch hnone
      · rw [Option.some.inj hsome]
    | _ => nomatch hfield

theorem swap (ha : a.Fits g) (hb : b.Fits (a.put g))
    (honce : ∀ f, a.replaced? = some f → b.replaced? ≠ some f) :
    b.Fits g ∧ a.Fits (b.put g) ∧ b.put (a.put g) = a.put (b.put g) := by
  by_cases hfield : a.field? = b.field?
  · obtain rfl := eq_of_fits ha hb hfield honce
    exact ⟨ha, hb, rfl⟩
  · exact ⟨(fits_put_iff (Ne.symm hfield)).mp hb, (fits_put_iff hfield).mpr ha,
      put_comm (Ne.symm hfield)⟩

end Item

namespace Gathered

variable {items items' : List Item} {g g' : Gathered}

theorem gatherAll_cons_eq_ok_iff {item : Item} : gatherAll (item :: items) g = .ok g' ↔
    item.Fits g ∧ gatherAll items (item.put g) = .ok g' := by
  rw [gatherAll]
  split
  · rename_i e herror
    have hunfit : ¬item.Fits g := fun hfits => by
      rw [Item.gather_eq_ok_iff.mpr ⟨hfits, rfl⟩] at herror
      contradiction
    simp [hunfit]
  · rename_i g₁ hitem
    obtain ⟨hfits, rfl⟩ := Item.gather_eq_ok_iff.mp hitem
    simp [hfits]

/-- Where nothing is replaced, items are gathered alike in every order. -/
theorem gatherAll_perm (hperm : items.Perm items')
    (honce : (items.filterMap Item.replaced?).Nodup) (h : gatherAll items g = .ok g') :
    gatherAll items' g = .ok g' := by
  induction hperm generalizing g with
  | nil => exact h
  | cons item _ ih =>
    obtain ⟨hfits, hrest⟩ := gatherAll_cons_eq_ok_iff.mp h
    have honce' := honce.sublist ((List.sublist_cons_self item _).filterMap _)
    exact gatherAll_cons_eq_ok_iff.mpr ⟨hfits, ih honce' hrest⟩
  | swap b a items =>
    obtain ⟨ha, hrest⟩ := gatherAll_cons_eq_ok_iff.mp h
    obtain ⟨hb, hrest⟩ := gatherAll_cons_eq_ok_iff.mp hrest
    have hne : ∀ f, a.replaced? = some f → b.replaced? ≠ some f := by
      intro f haf hbf
      simp [haf, hbf] at honce
    obtain ⟨hb', ha', hput⟩ := Item.swap ha hb hne
    rw [hput] at hrest
    exact gatherAll_cons_eq_ok_iff.mpr ⟨hb', gatherAll_cons_eq_ok_iff.mpr ⟨ha', hrest⟩⟩
  | trans h₁ _ ih₁ ih₂ => exact ih₂ ((h₁.filterMap _).nodup_iff.mp honce) (ih₁ honce h)

end Gathered

def flagItem : String → Item
  | "--asm" => .format .assembly
  | "--hex" => .format .hex
  | "-v" | "--verbose" => .verbose
  | _ => .trace

def optionItem : String → Octets → Item
  | "-c" | "--cycles" => fun value => .cycles (Octets.lossyText value)
  | "--switches" => fun value => .switches (Octets.lossyText value)
  | _ => fun value => .output ⟨value⟩

/-- The names are those of the flags and the options, and nothing that starts with no dash is a
name. -/
structure OptionTable.Reads (table : OptionTable) (flags options : List String) : Prop where
  name : ∀ name ∈ flags ++ options, Octets.lossyText (Octets.ofString name) = name
  flag : ∀ name ∈ flags, table name = some (.alone (flagItem name))
  option : ∀ name ∈ options, ∃ shown, table name = some (.valued shown (optionItem name))
  other : ∀ text : String, text.toList.head? ≠ some '-' → table text = none

theorem OptionTable.reads_run : run.Reads runFlags runOptions where
  name := by decide +kernel
  flag := by simp [runFlags, run, flagItem]
  option := by simp [runOptions, run, optionItem]
  other text h := by
    unfold run
    split <;> first | rfl | exact absurd rfl h

theorem OptionTable.reads_build : build.Reads buildFlags buildOptions where
  name := by decide +kernel
  flag := by simp [buildFlags, build, flagItem]
  option := by simp [buildOptions, build, optionItem]
  other text h := by
    unfold build
    split <;> first | rfl | exact absurd rfl h

namespace Group

variable {group : Group} {groups groups' : List Group} {table : OptionTable}
  {flags options : List String}

def item : Group → Item
  | input path => .input ⟨path⟩
  | flag name => flagItem name
  | valued name value => optionItem name value

theorem replaced?_item (h : group.Of flags options) (hrun : options ⊆ runOptions) :
    group.item.replaced? = group.field? := by
  cases group with
  | input => rfl
  | flag name =>
    simp only [item, flagItem]
    split <;> rfl
  | valued name value =>
    have hoptions : ∀ name ∈ runOptions, (optionItem name value).replaced? = optionField? name := by
      simp [runOptions, optionItem, optionField?, Item.replaced?]
    exact hoptions name (hrun h)

theorem items_arguments (htable : table.Reads flags options) (h : group.Of flags options)
    (rest : List Octets) :
    table.items (group.arguments ++ rest) = group.item :: table.items rest := by
  cases group with
  | input path =>
    have hpath : path.head? ≠ some 0x2D := h
    have hother := htable.other (Octets.lossyText path)
      fun hdash => hpath (Octets.head?_of_lossyText hdash)
    simp only [arguments, List.singleton_append, OptionTable.items, hother, Item.ofOther, hpath,
      if_false, item]
  | flag name =>
    simp only [arguments, List.singleton_append, OptionTable.items,
      htable.name name (List.mem_append_left _ h), htable.flag name h, item]
  | valued name value =>
    obtain ⟨shown, hshown⟩ := htable.option name h
    simp only [arguments, List.cons_append, List.nil_append, OptionTable.items,
      htable.name name (List.mem_append_right _ h), hshown, item]

theorem items_groups (htable : table.Reads flags options)
    (h : ∀ group ∈ groups, group.Of flags options) :
    table.items (groups.flatMap arguments) = groups.map item := by
  induction groups with
  | nil => rfl
  | cons group groups ih =>
    obtain ⟨hgroup, hgroups⟩ := List.forall_mem_cons.mp h
    rw [List.flatMap_cons, items_arguments htable hgroup, ih hgroups, List.map_cons]

theorem gatherAll_perm {g : Gathered} (h : ∀ group ∈ groups, group.Of flags options)
    (hrun : options ⊆ runOptions) (hperm : groups.Perm groups')
    (honce : (groups.filterMap field?).Nodup)
    (hok : Gathered.gatherAll (groups.map item) {} = .ok g) :
    Gathered.gatherAll (groups'.map item) {} = .ok g := by
  have hreplaced : (groups.map item).filterMap Item.replaced? = groups.filterMap field? := by
    rw [List.filterMap_map]
    exact List.filterMap_congr fun group hgroup => replaced?_item (h group hgroup) hrun
  exact Gathered.gatherAll_perm (hperm.map item) (hreplaced ▸ honce) hok

theorem ofArguments_perm (htable : table.Reads flags options) (hrun : options ⊆ runOptions)
    (h : ∀ group ∈ groups, group.Of flags options) (hperm : groups.Perm groups')
    (honce : (groups.filterMap field?).Nodup) {x : Path × Gathered}
    (hx : Gathered.ofArguments table (groups.flatMap arguments) = .ok x) :
    Gathered.ofArguments table (groups'.flatMap arguments) = .ok x := by
  have h' : ∀ group ∈ groups', group.Of flags options :=
    fun group hgroup => h group (hperm.mem_iff.mpr hgroup)
  unfold Gathered.ofArguments at hx ⊢
  rw [items_groups htable h] at hx
  rw [items_groups htable h']
  split at hx
  · contradiction
  · rename_i g hg
    rw [gatherAll_perm h hrun hperm honce hg]
    exact hx

end Group

/-- Arguments that make up a request make up the same request in every order of their groups, if no
two options give the value of one field. Flags may be repeated, and a value may look like an
option. -/
theorem option_order_immaterial {groups groups' : List Group} (hperm : groups.Perm groups')
    (honce : (groups.filterMap Group.field?).Nodup) :
    ((∀ group ∈ groups, group.Of runFlags runOptions) → ∀ r,
      RunRequest.ofArguments (groups.flatMap Group.arguments) = .ok r →
        RunRequest.ofArguments (groups'.flatMap Group.arguments) = .ok r) ∧
    ((∀ group ∈ groups, group.Of buildFlags buildOptions) → ∀ r,
      BuildRequest.ofArguments (groups.flatMap Group.arguments) = .ok r →
        BuildRequest.ofArguments (groups'.flatMap Group.arguments) = .ok r) := by
  refine ⟨fun h r hr => ?_, fun h r hr => ?_⟩
  · obtain ⟨x, hx, rfl⟩ := ok_of_map hr
    rw [RunRequest.ofArguments,
      Group.ofArguments_perm OptionTable.reads_run (List.Subset.refl _) h hperm honce hx]
    rfl
  · obtain ⟨x, hx, rfl⟩ := ok_of_map hr
    rw [BuildRequest.ofArguments,
      Group.ofArguments_perm OptionTable.reads_build (by decide) h hperm honce hx]
    rfl

theorem option_order_immaterial_reverse :
    RunRequest.ofArguments (["-t", "-c", "5", "-t", "a.s", "-o", "--help"].map Octets.ofString) =
      .ok ⟨.ofString "a.s", none, some (.ofString "--help"), some 5, true, 0⟩ := by
  let groups : List Group := [.valued "-o" (Octets.ofString "--help"),
    .input (Octets.ofString "a.s"), .flag "-t", .valued "-c" (Octets.ofString "5"), .flag "-t"]
  have hinput : (Octets.ofString "a.s").head? ≠ some 0x2D := by decide +kernel
  have hgroups : ∀ group ∈ groups, group.Of runFlags runOptions := by
    simp [groups, Group.Of, runFlags, runOptions, hinput]
  obtain ⟨hrun, -⟩ := option_order_immaterial (List.reverse_perm groups).symm (by decide)
  exact hrun hgroups _ (by decide +kernel)

end WordMachine.CommandLine
