import Mathlib.Data.Prod.Lex
import WordMachine.Proofs.Assembly.Failures

/-!
# The limit on macro calls

The pass counts the levels that are left. Counted from the top instead, the depth of a call and the
lines of its frame make a recursion that is well-founded whatever macros call each other, and the
pass is its only solution. The limit does nothing but cut it off: a pass that does not come to the
limit is the same under every greater one.
-/

namespace WordMachine.Assembly

variable {limit levels number skipped : Nat} {inMacro : Option String} {line name : String}
  {lines rest body : List String} {here : Location} {d d' : Draft} {f : Failure}
  {s : Statement} {e : Effect} {entry : Entry} {j : Journal} {config config' : Config}

/-- What one call of the pass is about. The depth is that of the macro whose lines these are. -/
structure Frame where
  depth : Nat
  inMacro : Option String
  number : Nat
  lines : List String
  draft : Draft

namespace Frame

variable {fr fr' : Frame}

def start (config : Config) (lines : List String) : Frame :=
  ⟨0, none, 1, lines, Draft.empty config.size⟩

def measure (limit : Nat) (fr : Frame) : Nat ×ₗ Nat := toLex (limit - fr.depth, fr.lines.length)

/-- One line of the frame; the lines after it, and those of a macro, are left to `next`. -/
def unroll (limit : Nat) (next : Frame → Except Failure Draft) (fr : Frame) :
    Except Failure Draft :=
  match fr.lines with
  | [] => .ok fr.draft
  | line :: rest =>
    let here : Location := ⟨fr.number, fr.inMacro⟩
    match fr.draft.advance here line rest with
    | .error f => .error f
    | .ok (.next d skipped) =>
      next ⟨fr.depth, fr.inMacro, fr.number + 1 + skipped, rest.drop skipped, d⟩
    | .ok (.expand d name body) =>
      if limit ≤ fr.depth then .error (d.failure here (.macroDepthExceeded name limit))
      else
        match next ⟨fr.depth + 1, some name, 1, body, d.note (.expanding name (fr.depth + 1))⟩ with
        | .error f => .error f
        | .ok d => next ⟨fr.depth, fr.inMacro, fr.number + 1, rest, d⟩

def Solves (limit : Nat) (next : Frame → Except Failure Draft) : Prop :=
  ∀ fr, next fr = fr.unroll limit next

theorem measure_lt_of_lines (hdepth : fr'.depth = fr.depth)
    (hlines : fr'.lines.length < fr.lines.length) : fr'.measure limit < fr.measure limit := by
  rw [measure, measure, hdepth]
  exact Prod.Lex.toLex_lt_toLex.mpr (.inr ⟨rfl, hlines⟩)

theorem measure_lt_of_depth (hdepth : fr'.depth = fr.depth + 1) (hlimit : fr.depth < limit) :
    fr'.measure limit < fr.measure limit := by
  rw [measure, measure, hdepth]
  exact Prod.Lex.toLex_lt_toLex.mpr (.inl (Nat.sub_succ_lt_self _ _ hlimit))

theorem unroll_congr {next next' : Frame → Except Failure Draft}
    (h : ∀ fr', fr'.measure limit < fr.measure limit → next fr' = next' fr') :
    fr.unroll limit next = fr.unroll limit next' := by
  obtain ⟨depth, inMacro, number, lines, d⟩ := fr
  unfold unroll
  cases lines with
  | nil => rfl
  | cons line rest =>
    dsimp only
    split
    · rfl
    · rename_i skipped _
      refine h _ (measure_lt_of_lines rfl ?_)
      change (rest.drop skipped).length < (line :: rest).length
      rw [List.length_drop, List.length_cons]
      omega
    · split
      · rfl
      · rename_i hlimit
        rw [h _ (measure_lt_of_depth rfl (Nat.lt_of_not_le hlimit))]
        split
        · rfl
        · exact h _ (measure_lt_of_lines rfl (Nat.lt_succ_self _))

def result (limit : Nat) (fr : Frame) : Except Failure Draft :=
  assembleLines limit (limit - fr.depth) fr.inMacro fr.number fr.lines fr.draft

theorem solves_result (limit : Nat) : Solves limit (result limit) := by
  intro fr
  obtain ⟨depth, inMacro, number, lines, d⟩ := fr
  cases lines with
  | nil => rw [result, assembleLines, unroll]
  | cons line rest =>
    rw [result, assembleLines, unroll]
    dsimp only
    cases d.advance ⟨number, inMacro⟩ line rest with
    | error f => rfl
    | ok a =>
      cases a with
      | next d' skipped => rfl
      | expand d' name body =>
        rcases Nat.lt_or_ge depth limit with hdepth | hdepth
        · -- the levels left and the depth of the call are counted from the two ends
          obtain ⟨levels, hlevels⟩ := Nat.exists_eq_add_of_lt hdepth
          have hleft : limit - depth = levels + 1 := by omega
          have hinner : limit - (depth + 1) = levels := by omega
          have hnoted : limit - levels = depth + 1 := by omega
          cases hbody : assembleLines limit levels (some name) 1 body
            (d'.note (.expanding name (depth + 1))) with
          | error f =>
            simp only [result, hinner, hnoted, hleft, hbody, Nat.not_le.mpr hdepth, if_false]
          | ok d₁ =>
            simp only [result, hinner, hnoted, hleft, hbody, Nat.not_le.mpr hdepth, if_false]
        · simp only [Nat.sub_eq_zero_of_le hdepth, hdepth, if_true]

theorem Solves.eq_result {next : Frame → Except Failure Draft} (h : Solves limit next) :
    next = result limit := by
  funext fr
  induction fr using (InvImage.wf (measure limit) wellFounded_lt).induction with
  | h fr ih =>
    rw [h fr, solves_result limit fr]
    exact unroll_congr ih

theorem existsUnique_solves (limit : Nat) :
    ∃! next : Frame → Except Failure Draft, Solves limit next :=
  ⟨result limit, solves_result limit, fun _ h => h.eq_result⟩

end Frame

def Entry.Within (limit : Nat) : Entry → Prop
  | expanding _ depth => 1 ≤ depth ∧ depth ≤ limit
  | _ => True

def Journal.Within (limit : Nat) (j : Journal) : Prop := ∀ entry ∈ j.toList, entry.Within limit

theorem Journal.Within.push (h : j.Within limit) (hentry : entry.Within limit) :
    Journal.Within limit (j.push entry) := by
  intro other hmem
  rw [Array.toList_push, List.mem_append, List.mem_singleton] at hmem
  rcases hmem with hmem | rfl
  · exact h other hmem
  · exact hentry

def journalOf : Except Failure Draft → Journal
  | .error f => f.journal
  | .ok d => d.journal

namespace Draft

theorem within_apply (h : d.journal.Within limit) : (d.apply here s e).journal.Within limit := by
  cases e with
  | nothing | expand name body => exact h
  | defineCell symbol =>
    have hdefined : (d.define symbol).journal.Within limit := h.push trivial
    exact hdefined.push trivial
  | emit | emitForward | store | define | reserve => exact h.push trivial

theorem within_next (h : d.journal.Within limit)
    (hadvance : d.advance here line rest = .ok (.next d' skipped)) : d'.journal.Within limit := by
  cases advances_of_advance hadvance with
  | capture => exact h.push trivial
  | effect => exact within_apply h

theorem within_expand (h : d.journal.Within limit)
    (hadvance : d.advance here line rest = .ok (.expand d' name body)) :
    d'.journal.Within limit := by
  cases advances_of_advance hadvance with
  | expand => exact h

theorem Refuses.within (hrefuses : d.Refuses here line rest f) (h : d.journal.Within limit) :
    f.journal.Within limit := by
  cases hrefuses with
  | redefined => exact h.push trivial
  | full | unread | nested | unterminated | blamed => exact h

theorem within_resolve {r : Reference} (h : d.journal.Within limit) (hr : d.resolve r = .ok d') :
    d'.journal.Within limit := by
  unfold resolve at hr
  split at hr
  · split at hr
    · contradiction
    · obtain rfl := Except.ok.inj hr
      exact h.push trivial
  · contradiction

theorem within_resolveAll (rs : List Reference) (h : d.journal.Within limit) :
    (journalOf (resolveAll rs d)).Within limit := by
  induction rs generalizing d with
  | nil => exact h
  | cons r rs ih =>
    rw [resolveAll]
    split
    · rename_i f hr
      rw [journalOf, (failure_of_resolve hr).1]
      exact h
    · rename_i d' hr
      exact ih (within_resolve h hr)

theorem within_finish (h : d.journal.Within limit) : d.finish.journal.Within limit := by
  have hresolve := within_resolveAll d.references.toList h
  unfold finish
  split
  · rename_i f hfailure
    rwa [hfailure] at hresolve
  · rename_i d' hok
    rw [hok] at hresolve
    split <;> exact hresolve

end Draft

theorem within_assembleLines (hlevels : levels ≤ limit) (h : d.journal.Within limit) :
    (journalOf (assembleLines limit levels inMacro number lines d)).Within limit := by
  fun_induction assembleLines limit levels inMacro number lines d
  case case1 => exact h
  case case2 hadvance => exact (Draft.refuses_of_advance hadvance).within h
  case case3 hadvance ih => exact ih hlevels (Draft.within_next h hadvance)
  case case4 hadvance => exact Draft.within_expand h hadvance
  case case5 hadvance levels d'' f hbody ih =>
    have hinner : d''.journal.Within limit :=
      (Draft.within_expand h hadvance).push ⟨Nat.sub_pos_of_lt hlevels, Nat.sub_le _ _⟩
    have hfailure := ih (Nat.le_of_succ_le hlevels) hinner
    rwa [hbody] at hfailure
  case case6 hadvance levels d'' d₃ hbody ihbody ihrest =>
    have hinner : d''.journal.Within limit :=
      (Draft.within_expand h hadvance).push ⟨Nat.sub_pos_of_lt hlevels, Nat.sub_le _ _⟩
    have hbehind := ihbody (Nat.le_of_succ_le hlevels) hinner
    rw [hbody] at hbehind
    exact ihrest hlevels hbehind

theorem within_assembleSource (config : Config) (lines : List String) :
    (assembleSource config lines).journal.Within config.maxMacroDepth := by
  have hempty : (Draft.empty config.size).journal.Within config.maxMacroDepth := by
    intro entry hmem
    simp [Draft.empty] at hmem
  have hpass : (journalOf (pass config lines)).Within config.maxMacroDepth :=
    within_assembleLines (Nat.le_refl _) hempty
  rw [assembleSource_eq]
  split
  · rename_i f hfailure
    rwa [hfailure] at hpass
  · rename_i d hok
    rw [hok] at hpass
    exact Draft.within_finish hpass

theorem Draft.Refuses.ne_macroDepthExceeded (h : d.Refuses here line rest f) (name : String)
    (n : Nat) : f.error.cause ≠ .macroDepthExceeded name n := by
  rintro hcause
  cases h with
  | unread _ hline =>
    obtain rfl : _ = Cause.macroDepthExceeded name n := hcause
    cases Statement.flaw_of_ofFields hline
  | blamed _ _ _ heffect =>
    obtain rfl : _ = Cause.macroDepthExceeded name n := hcause
    cases blames_of_effectOf heffect with
    | misused _ _ hflaw => cases hflaw
  | full | nested | unterminated | redefined => cases hcause

theorem limit_of_assembleSource {x : Error} {n : Nat}
    (h : (assembleSource config lines).result = .error x)
    (hcause : x.cause = .macroDepthExceeded name n) : n = config.maxMacroDepth := by
  cases fails_of_assembleSource h with
  | stopped _ _ _ hstop =>
    cases hstop with
    | refused hrefuses => exact absurd hcause (hrefuses.ne_macroDepthExceeded name n)
    | tooDeep => exact (Cause.macroDepthExceeded.inj hcause).2.symm
  | unresolved | tooLarge | full => cases hcause

theorem assembleLines_add (more : Nat)
    (h : ∀ f, assembleLines limit levels inMacro number lines d = .error f →
      ∀ name n, f.error.cause ≠ .macroDepthExceeded name n) :
    assembleLines (limit + more) (levels + more) inMacro number lines d =
      assembleLines limit levels inMacro number lines d := by
  fun_induction assembleLines limit levels inMacro number lines d
  case case1 => rw [assembleLines]
  case case2 hadvance => rw [assembleLines_of_error hadvance]
  case case3 hadvance ih => rw [assembleLines_of_next hadvance, ih h]
  case case4 => exact absurd rfl (h _ rfl _ _)
  case case5 hadvance levels d'' f' hbody ih =>
    have hinner := ih (by rw [hbody]; exact h)
    rw [hbody] at hinner
    rw [Nat.succ_add]
    refine assembleLines_of_expand_error hadvance ?_
    rw [Nat.add_sub_add_right, hinner]
  case case6 hadvance levels d'' d₃ hbody ihbody ihrest =>
    -- the body has come to its end, so it has not come to the limit
    have hinner := ihbody fun f hf => by
      rw [hbody] at hf
      contradiction
    have hrest := ihrest h
    rw [hbody] at hinner
    rw [Nat.succ_add] at hrest ⊢
    refine (assembleLines_of_expand hadvance ?_).trans hrest
    rw [Nat.add_sub_add_right, hinner]

theorem assembleSource_of_le (hsize : config'.size = config.size)
    (hlimit : config.maxMacroDepth ≤ config'.maxMacroDepth)
    (h : ∀ x, (assembleSource config lines).result = .error x →
      ∀ name n, x.cause ≠ .macroDepthExceeded name n) :
    assembleSource config' lines = assembleSource config lines := by
  obtain ⟨more, hmore⟩ := Nat.exists_eq_add_of_le hlimit
  have hpass : pass config' lines = pass config lines := by
    rw [pass, hsize, hmore]
    refine assembleLines_add more ?_
    intro f hf
    refine h f.error ?_
    rw [assembleSource_eq, show pass config lines = .error f from hf]
  rw [assembleSource_eq, assembleSource_eq, hpass]

/-- The pass is a recursion on frames, each of which asks only for frames with fewer levels left, or
as many and fewer lines. Every expansion is at a depth from 1 to the limit. Where the pass does not
come to the limit, no greater limit makes a difference. -/
theorem depth_limit_cuts_off (config : Config) (lines : List String) :
    (∀ (fr : Frame) (next next' : Frame → Except Failure Draft),
      (∀ fr', fr'.measure config.maxMacroDepth < fr.measure config.maxMacroDepth →
        next fr' = next' fr') →
      fr.unroll config.maxMacroDepth next = fr.unroll config.maxMacroDepth next') ∧
    (∃! next, Frame.Solves config.maxMacroDepth next) ∧
    (∀ next, Frame.Solves config.maxMacroDepth next →
      pass config lines = next (Frame.start config lines)) ∧
    (assembleSource config lines).journal.Within config.maxMacroDepth ∧
    (∀ x, (assembleSource config lines).result = .error x →
      ∀ name n, x.cause = .macroDepthExceeded name n → n = config.maxMacroDepth) ∧
    ∀ config' : Config, config'.size = config.size →
      config.maxMacroDepth ≤ config'.maxMacroDepth →
      (∀ x, (assembleSource config lines).result = .error x →
        ∀ name n, x.cause ≠ .macroDepthExceeded name n) →
      assembleSource config' lines = assembleSource config lines := by
  refine ⟨fun fr next next' => Frame.unroll_congr, Frame.existsUnique_solves _, ?_,
    within_assembleSource config lines, fun x h name n => limit_of_assembleSource h,
    fun config' => assembleSource_of_le⟩
  intro next hnext
  rw [hnext.eq_result]
  rfl

/-- The macros call each other until the limit cuts them off, though every frame asks for smaller
ones only. A macro that calls no other is the same under a greater limit. -/
theorem depth_limit_cuts_off_mutual :
    (∃ next, pass .least ["macro a", "b", ".end", "macro b", "a", ".end", "a"] =
        next (Frame.start .least ["macro a", "b", ".end", "macro b", "a", ".end", "a"]) ∧
      ∀ fr : Frame, fr.unroll 1 next = fr.unroll 1 fun fr' =>
        if fr'.measure 1 < fr.measure 1 then next fr' else .ok fr.draft) ∧
    (∃ limit, (assembleSource .least ["macro a", "b", ".end", "macro b", "a", ".end", "a"]).result =
        .error ⟨.macroDepthExceeded "b" limit, some ⟨1, some "a"⟩⟩ ∧
      limit = Config.least.maxMacroDepth) ∧
    assembleSource { Config.least with maxMacroDepth := 16 }
        ["macro stop", "jump end", "label end", ".end", "stop"] =
      assembleSource .least ["macro stop", "jump end", "label end", ".end", "stop"] := by
  obtain ⟨hsmaller, ⟨next, hnext, _⟩, hpass, _, hlimit, _⟩ := depth_limit_cuts_off .least
    ["macro a", "b", ".end", "macro b", "a", ".end", "a"]
  obtain ⟨_, _, _, _, _, hgreater⟩ := depth_limit_cuts_off .least
    ["macro stop", "jump end", "label end", ".end", "stop"]
  have hfail : (assembleSource .least
      ["macro a", "b", ".end", "macro b", "a", ".end", "a"]).result =
      .error ⟨.macroDepthExceeded "b" 1, some ⟨1, some "a"⟩⟩ := by cbv
  have hok : (assembleSource .least ["macro stop", "jump end", "label end", ".end",
      "stop"]).result.toOption.map Program.codeWords = some 1 := by cbv
  refine ⟨⟨next, hpass next hnext, fun fr => hsmaller fr _ _ fun fr' h => (if_pos h).symm⟩,
    ⟨1, hfail, hlimit _ hfail _ _ rfl⟩, hgreater _ rfl (by decide) ?_⟩
  intro x hx
  obtain ⟨p, hp, _⟩ := exists_ok hok
  cases hp.symm.trans hx

end WordMachine.Assembly
