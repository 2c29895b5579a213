import WordMachine.CommandLine.Request
import WordMachine.Proofs.Assembly.Effects

/-!
# Output paths

The path to which the output of a command goes is the last that an option gives.
-/

namespace WordMachine.CommandLine

def Item.output? : Item → Option Path
  | output path => some path
  | _ => none

/-- Of several output paths, the last one counts. -/
def lastOutput (items : List Item) : Option Path := (items.filterMap Item.output?).getLast?

theorem lastOutput_cons (item : Item) (items : List Item) :
    lastOutput (item :: items) = (lastOutput items).or item.output? := by
  unfold lastOutput
  cases hitem : item.output? with
  | none => rw [List.filterMap_cons_none hitem, Option.or_none]
  | some path =>
    rw [List.filterMap_cons_some hitem, List.getLast?_cons]
    cases (items.filterMap Item.output?).getLast? <;> rfl

theorem Gathered.output_of_gather {g g' : Gathered} {item : Item} (h : g.gather item = .ok g') :
    g'.output = item.output?.or g.output := by
  cases item <;> simp only [gather] at h
  case help | unknown | valueless => contradiction
  case verbose | trace | output =>
    obtain rfl := Except.ok.inj h
    rfl
  case format | input =>
    split at h
    · contradiction
    · obtain rfl := Except.ok.inj h
      rfl
  case cycles | switches =>
    split at h
    · contradiction
    · obtain rfl := Except.ok.inj h
      rfl

theorem Gathered.output_of_gatherAll {items : List Item} {g g' : Gathered}
    (h : gatherAll items g = .ok g') : g'.output = (lastOutput items).or g.output := by
  induction items generalizing g with
  | nil =>
    obtain rfl := Except.ok.inj h
    rfl
  | cons item items ih =>
    rw [gatherAll] at h
    split at h
    · contradiction
    · rename_i g₁ hitem
      rw [ih h, output_of_gather hitem, lastOutput_cons, Option.or_assoc]

theorem Gathered.output_of_ofArguments {table : OptionTable} {args : List Octets} {input : Path}
    {g : Gathered} (h : ofArguments table args = .ok (input, g)) :
    g.output = lastOutput (table.items args) := by
  unfold ofArguments at h
  split at h
  · contradiction
  · rename_i g' hg
    split at h
    · contradiction
    · obtain ⟨-, rfl⟩ := Prod.mk.inj (Except.ok.inj h)
      simpa using output_of_gatherAll hg

namespace Request

theorem ofArguments_ok {args : List Octets} {request : Request}
    (h : ofArguments args = .ok request) : request = .help ∨
      (∃ r, request = .build r ∧ BuildRequest.ofArguments args.tail = .ok r) ∨
      ∃ r, request = .run r ∧ RunRequest.ofArguments args.tail = .ok r := by
  cases args with
  | nil => contradiction
  | cons first rest =>
    simp only [ofArguments] at h
    split at h
    · exact .inl (Except.ok.inj h).symm
    · split at h
      · cases hr : BuildRequest.ofArguments rest with
        | error e =>
          rw [hr] at h
          contradiction
        | ok r =>
          rw [hr] at h
          exact .inr (.inl ⟨r, (Except.ok.inj h).symm, hr⟩)
      · split at h
        · cases hr : RunRequest.ofArguments rest with
          | error e =>
            rw [hr] at h
            contradiction
          | ok r =>
            rw [hr] at h
            exact .inr (.inr ⟨r, (Except.ok.inj h).symm, hr⟩)
        · contradiction

theorem output_of_build {args : List Octets} {r : BuildRequest}
    (h : ofArguments args = .ok (.build r)) :
    r.output = lastOutput (OptionTable.build.items args.tail) := by
  rcases ofArguments_ok h with h | ⟨_, h, hr⟩ | ⟨_, h, -⟩
  · contradiction
  · obtain rfl := Request.build.inj h
    obtain ⟨_, hg, rfl⟩ := ok_of_map hr
    exact Gathered.output_of_ofArguments hg
  · contradiction

theorem output_of_run {args : List Octets} {r : RunRequest}
    (h : ofArguments args = .ok (.run r)) :
    r.output = lastOutput (OptionTable.run.items args.tail) := by
  rcases ofArguments_ok h with h | ⟨_, h, -⟩ | ⟨_, h, hr⟩
  · contradiction
  · contradiction
  · obtain rfl := Request.run.inj h
    obtain ⟨_, hg, rfl⟩ := ok_of_map hr
    exact Gathered.output_of_ofArguments hg

end Request

end WordMachine.CommandLine
