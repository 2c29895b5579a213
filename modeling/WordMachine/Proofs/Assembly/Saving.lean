import WordMachine.Machine.Run
import WordMachine.Proofs.Assembly.Extent
import WordMachine.Proofs.Image.RoundTrip

/-!
# Programs saved and loaded again

Only the extent of a program is saved. Every word that the pass emits or stores lies within it, and
operands are filled in where words were emitted, so behind it the image is blank. A memory that is
blank itself is therefore the same whether it is loaded with the program or with what was saved.
-/

namespace WordMachine

namespace Assembly

variable {config : Config} {lines : List String} {p : Program}

theorem blank_of_assembleSource (h : (assembleSource config lines).result = .ok p) :
    ∃ n, p.image.used = some n ∧ ∀ a, n ≤ a → ∀ w, p.image.words[a]? = some w → w = 0 := by
  obtain ⟨d, d', hpass, hresolve, _, rfl⟩ := assembleSource_ok h
  have trace := Trace.of_pass hpass
  refine ⟨min d'.extent d'.cells.size, rfl, ?_⟩
  intro a ha w hw
  change d'.cells[a]? = some w at hw
  obtain ⟨hinside, -⟩ := Array.getElem?_eq_some_iff.mp hw
  have hextent : d.extent ≤ a := by
    rw [← Draft.extent_resolveAll hresolve]
    omega
  have hoff : ∀ v ∈ visitsOf config lines, ¬v.Writes a := by
    intro v hv hwrites
    have := trace.lt_extent hv hwrites
    omega
  -- a reference is filled in where the visit that made it emitted a word
  have hreferences : ∀ r ∈ d.references.toList, r.address ≠ a := by
    rintro r hr rfl
    rw [references_of_pass hpass] at hr
    obtain ⟨v, hv, hforward⟩ := List.mem_filterMap.mp hr
    obtain ⟨w', hw'⟩ := emission_of_forward hforward
    exact hoff v hv ⟨w', .inl hw'⟩
  have hcell : d.cells[a]? = (Draft.empty config.size).cells[a]? :=
    trace.getElem?_frame (fun v hv w hw => hoff v hv ⟨w, .inl hw⟩)
      (fun v hv w hw => hoff v hv ⟨w, .inr hw⟩)
  rw [Draft.getElem?_resolveAll_of_notMem hresolve hreferences, hcell] at hw
  obtain ⟨_, rfl⟩ := Array.getElem?_eq_some_iff.mp hw
  simp [Draft.empty]

end Assembly

theorem Memory.load_zero_congr {size : MemorySize} {ws ws' : Array Word}
    (h : ∀ i < size.words, ws[i]?.getD 0 = ws'[i]?.getD 0) :
    (zero size).load ws = (zero size).load ws' := by
  simp only [load, Memory.mk.injEq, true_and]
  apply congrArg Array.ofFn
  funext i
  have hi : i.val < size.words := i.isLt.trans_eq (zero size).size_cells
  have hzero : (zero size).cells[i] = 0 := Array.getElem_replicate _
  rw [hzero]
  exact h i hi

theorem Image.getD_savedWords {image : Image} {n : Nat} (hused : image.used = some n)
    (hblank : ∀ a, n ≤ a → ∀ w, image.words[a]? = some w → w = 0) (a : Nat) :
    image.savedWords[a]?.getD 0 = image.words[a]?.getD 0 := by
  rw [savedWords, hused, Array.getElem?_extract]
  split
  · simp
  · rename_i ha
    have hn := image.used_le n hused
    cases hw : image.words[a]? with
    | none => rfl
    | some w => simp [hblank a (by omega) w hw]

namespace Assembly

/-- An image is saved as text and read again without loss. A machine of any size that is switched on
with what was saved of a program is the one that is switched on with the program. -/
theorem saved_image_reloads :
    (∀ (image : Image) (size : MemorySize), Image.parse image.text size =
      .ok (Image.ofWords (image.savedWords.extract 0 size.words))) ∧
    ∀ (config : Config) (lines : List String) (p : Program),
      (assembleSource config lines).result = .ok p →
        (∃ n, p.image.used = some n ∧ ∀ a, n ≤ a → ∀ w, p.image.words[a]? = some w → w = 0) ∧
        ∀ (size : MemorySize) (switches : Word), ∃ reread,
          Image.parse p.image.text size = .ok reread ∧
          (Machine.powerOn size switches).load reread.words =
            (Machine.powerOn size switches).load p.image.words ∧
          ∀ (κ : Type) [Console κ] (keep : Notice → Bool) (budget : Option Nat) (console : κ),
            ((Machine.powerOn size switches).load reread.words).run keep budget console =
              ((Machine.powerOn size switches).load p.image.words).run keep budget console := by
  refine ⟨Image.parse_text, ?_⟩
  intro config lines p h
  obtain ⟨n, hused, hblank⟩ := blank_of_assembleSource h
  refine ⟨⟨n, hused, hblank⟩, ?_⟩
  intro size switches
  have hmemory : (Memory.zero size).load (p.image.savedWords.extract 0 size.words) =
      (Memory.zero size).load p.image.words := by
    apply Memory.load_zero_congr
    intro i hi
    have hread : (p.image.savedWords.extract 0 size.words)[i]? = p.image.savedWords[i]? := by
      rw [Array.getElem?_extract]
      split
      · simp
      · rw [Array.getElem?_eq_none (by omega)]
    rw [hread, Image.getD_savedWords hused hblank]
  have hmachine : (Machine.powerOn size switches).load
      (p.image.savedWords.extract 0 size.words) =
        (Machine.powerOn size switches).load p.image.words := by
    simp only [Machine.load, Machine.powerOn, hmemory]
  refine ⟨_, Image.parse_text p.image size, hmachine, ?_⟩
  intro κ _ keep budget console
  exact congrArg (fun m : Machine => m.run keep budget console) hmachine

theorem saved_image_reloads_stored : ∃ p reread,
    (assembleSource .least [".set $9 $7", "jump top", "nop", "label top"]).result = .ok p ∧
      p.image.used = some 10 ∧ Image.parse p.image.text .standard = .ok reread ∧
      (Machine.powerOn .standard 0).load reread.words =
        (Machine.powerOn .standard 0).load p.image.words := by
  cases h : (assembleSource .least [".set $9 $7", "jump top", "nop", "label top"]).result with
  | ok p =>
    have hused : (assembleSource .least
        [".set $9 $7", "jump top", "nop", "label top"]).result.toOption.bind (·.image.used) =
        some 10 := by cbv
    rw [h] at hused
    obtain ⟨reread, hparse, hload, -⟩ := (saved_image_reloads.2 _ _ p h).2 .standard 0
    exact ⟨p, reread, rfl, hused, hparse, hload⟩
  | error e =>
    have hsome : (assembleSource .least
        [".set $9 $7", "jump top", "nop", "label top"]).result.isOk = true := by cbv
    rw [h] at hsome
    contradiction

end Assembly

end WordMachine
