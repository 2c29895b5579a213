import Mathlib.Logic.Relation
import WordMachine.Proofs.Assembly.Alike

/-!
# Inlining of macros

A call of a macro does what the lines of its body would do in its place. A pass over a source is cut
before the call and behind it, the body is passed at the level of the call, and the pieces are put
together again.
-/

namespace WordMachine.Assembly

variable {limit levels levels' number number' skipped : Nat} {inMacro inMacro' : Option String}
  {line name : String} {lines rest body after xs ys : List String} {here : Location}
  {d d' d₁ d₂ e : Draft} {v : Visit} {us vs ws : List Visit} {config : Config} {p : Program}

theorem captureBody_append {close : String} (hbody : ∀ l ∈ body, closesMacro l = false)
    (hclose : closesMacro close = true) :
    captureBody (body ++ close :: after) = some (body, after) := by
  have hopen : ∀ l ∈ body, (!closesMacro l) = true := by
    intro l hl
    simp [hbody l hl]
  simp [captureBody, List.dropWhile_append_of_pos hopen, List.takeWhile_append_of_pos hopen, hclose]

theorem eq_of_captureBody (h : captureBody lines = some (body, after)) : ∃ close,
    lines = body ++ close :: after ∧ closesMacro close = true ∧
      ∀ l ∈ body, closesMacro l = false := by
  unfold captureBody at h
  split at h
  · cases h
  · rename_i close rest hdrop
    obtain ⟨rfl, rfl⟩ := Prod.mk.inj (Option.some.inj h)
    refine ⟨close, ?_, ?_, ?_⟩
    · rw [← hdrop, List.takeWhile_append_dropWhile]
    · have hhead := List.head_dropWhile_not (!closesMacro ·) (l := lines) (by simp [hdrop])
      simpa [hdrop] using hhead
    · intro l hl
      have hall := List.all_takeWhile (p := (!closesMacro ·)) (l := lines)
      simpa using List.all_eq_true.mp hall l hl

theorem advance_next_rest (h : d.advance here line rest = .ok (.next d' skipped)) :
    skipped ≤ rest.length ∧
      ∀ zs, d.advance here line (rest.take skipped ++ zs) = .ok (.next d' skipped) := by
  cases Draft.advances_of_advance h with
  | @capture name body after hline hspace houter hbody hfree =>
    obtain ⟨close, rfl, hclose, hopen⟩ := eq_of_captureBody hbody
    refine ⟨by simp, ?_⟩
    intro zs
    have htake : (body ++ close :: after).take (body.length + 1) ++ zs = body ++ close :: zs := by
      simp [List.take_append]
    rw [htake]
    exact Draft.advance_of_advances
      (.capture hline hspace houter (captureBody_append hopen hclose) hfree)
  | effect hline hspace hs heffect he =>
    exact ⟨Nat.zero_le _, fun zs =>
      Draft.advance_of_advances (.effect hline hspace hs heffect he)⟩

theorem advance_expand_rest (h : d.advance here line rest = .ok (.expand d' name body))
    (zs : List String) : d.advance here line zs = .ok (.expand d' name body) := by
  cases Draft.advances_of_advance h with
  | expand hline hspace heffect => exact Draft.advance_of_advances (.expand hline hspace heffect)

def calls (vs : List Visit) : Nat := vs.countP Visit.expands

@[simp] theorem calls_nil : calls [] = 0 := rfl

@[simp] theorem calls_append (vs ws : List Visit) : calls (vs ++ ws) = calls vs + calls ws :=
  List.countP_append

theorem expands_of_next (h : d.advance here line rest = .ok (.next d' skipped)) :
    (Visit.mk here line rest d).expands = false := by
  cases Draft.advances_of_advance h with
  | capture hline hspace houter hbody hfree =>
    simp [Visit.expands, Visit.effect?, Visit.statement?, hspace, hline, Except.toOption,
      Draft.effectOf]
  | @effect s f hline hspace hs heffect he =>
    cases f with
    | expand name body => exact absurd rfl (he name body)
    | _ =>
      simp [Visit.expands, Visit.effect?, Visit.statement?, hspace, hline, Except.toOption, heffect]

theorem calls_next (h : d.advance here line rest = .ok (.next d' skipped)) (vs : List Visit) :
    calls (⟨here, line, rest, d⟩ :: vs) = calls vs := by
  simp [calls, expands_of_next h]

theorem effect?_of_expand (h : d.advance here line rest = .ok (.expand d' name body)) :
    (Visit.mk here line rest d).effect? = some (.expand name body) := by
  cases Draft.advances_of_advance h with
  | expand hline hspace heffect =>
    simp [Visit.effect?, Visit.statement?, hspace, hline, Except.toOption, heffect]

theorem calls_expand (h : d.advance here line rest = .ok (.expand d' name body))
    (vs : List Visit) : calls (⟨here, line, rest, d⟩ :: vs) = calls vs + 1 := by
  simp [calls, Visit.expands, effect?_of_expand h]

namespace Passes

theorem append (h : Passes limit levels inMacro number xs d us d₁)
    (h' : Passes limit levels inMacro (number + xs.length) ys d₁ ws d₂) :
    ∃ vs, Passes limit levels inMacro number (xs ++ ys) d vs d₂ ∧
      calls vs = calls us + calls ws := by
  induction h with
  | done => exact ⟨ws, h', by simp⟩
  | @next levels inMacro number line rest d d₁ d₂ skipped us hline tail ih =>
    obtain ⟨hskipped, hrest⟩ := advance_next_rest hline
    have hnumber : number + (line :: rest).length =
        number + 1 + skipped + (rest.drop skipped).length := by
      rw [List.length_cons, List.length_drop]
      omega
    rw [hnumber] at h'
    obtain ⟨vs, hvs, hcalls⟩ := ih h'
    have hline' := hrest (rest.drop skipped ++ ys)
    rw [← List.append_assoc, List.take_append_drop] at hline'
    rw [← List.drop_append_of_le_length hskipped] at hvs
    rw [List.cons_append]
    refine ⟨_, .next hline' hvs, ?_⟩
    rw [calls_next hline', calls_next hline, hcalls]
  | @expand levels inMacro number line rest name body d d₀ d₁ d₂ us ws' hline inner tail _ ih =>
    have hnumber : number + (line :: rest).length = number + 1 + rest.length := by
      rw [List.length_cons]
      omega
    rw [hnumber] at h'
    obtain ⟨vs, hvs, hcalls⟩ := ih h'
    have hline' := advance_expand_rest hline (rest ++ ys)
    rw [List.cons_append]
    refine ⟨_, .expand hline' inner hvs, ?_⟩
    rw [calls_expand hline', calls_expand hline, calls_append, calls_append, hcalls]
    omega

/-- A pass over lines in a macro is one over the same lines at the top level, and a pass goes
through with more levels. -/
theorem alike (h : Passes limit levels inMacro number lines d vs d') (hlevels : levels ≤ levels')
    (hscope : inMacro = none → inMacro' = none) (halike : d.Alike e) (number' : Nat) :
    ∃ ws e', Passes limit levels' inMacro' number' lines e ws e' ∧ d'.Alike e' ∧
      calls ws = calls vs := by
  induction h generalizing levels' inMacro' number' e with
  | done => exact ⟨[], e, .done, halike, rfl⟩
  | @next levels inMacro number line rest d d₁ d₂ skipped vs hline tail ih =>
    obtain ⟨e₁, hline', halike₁⟩ := halike.advance_next ⟨number', inMacro'⟩ hscope hline
    obtain ⟨ws, e₂, hws, halike₂, hcalls⟩ := ih hlevels hscope halike₁ (number' + 1 + skipped)
    refine ⟨_, e₂, .next hline' hws, halike₂, ?_⟩
    rw [calls_next hline', calls_next hline, hcalls]
  | @expand levels inMacro number line rest name body d d₀ d₁ d₂ vs ws hline inner tail ihinner
      ihtail =>
    obtain ⟨rfl, hline'⟩ := halike.advance_expand ⟨number', inMacro'⟩ hline
    -- the body is passed one level down on both sides, and there is one since `levels` has it
    obtain ⟨levels', rfl⟩ := Nat.exists_eq_add_of_le' (le_trans (Nat.le_add_left 1 levels) hlevels)
    have hinside : d₀.Alike (e.note (.expanding name (limit - levels'))) := halike.note_right _
    obtain ⟨vs', e₁, hvs, halike₁, hcalls₁⟩ := ihinner
      (Nat.le_of_succ_le_succ hlevels) id (hinside.note _) 1
    obtain ⟨ws', e₂, hws, halike₂, hcalls₂⟩ := ihtail hlevels hscope halike₁ (number' + 1)
    refine ⟨_, e₂, .expand hline' hvs hws, halike₂, ?_⟩
    rw [calls_expand hline', calls_expand hline, calls_append, calls_append, hcalls₁, hcalls₂]

theorem inMacro_isSome (h : Passes limit levels inMacro number lines d vs d')
    (hinside : inMacro.isSome) (hv : v ∈ vs) : v.here.inMacro.isSome := by
  induction h with
  | done => simp at hv
  | next hline tail ih =>
    rcases List.mem_cons.mp hv with rfl | hmem
    · exact hinside
    · exact ih hinside hmem
  | expand hline inner tail ihinner ihtail =>
    rcases List.mem_cons.mp hv with rfl | hmem
    · exact hinside
    · rcases List.mem_append.mp hmem with hmem | hmem
      · exact ihinner rfl hmem
      · exact ihtail hinside hmem

theorem split (h : Passes limit levels inMacro number lines d vs d') (hv : v ∈ vs)
    (houter : v.here.inMacro = none) : ∃ before us ws,
      lines = before ++ v.line :: v.rest ∧ v.here = ⟨number + before.length, inMacro⟩ ∧
      Passes limit levels inMacro number before d us v.before ∧
      Passes limit levels inMacro (number + before.length) (v.line :: v.rest) v.before ws d' ∧
      calls vs = calls us + calls ws := by
  induction h with
  | done => simp at hv
  | @next levels inMacro number line rest d d₁ d₂ skipped vs hline tail ih =>
    rcases List.mem_cons.mp hv with rfl | hmem
    · exact ⟨[], [], _, rfl, rfl, .done, .next hline tail, by simp⟩
    · obtain ⟨before, us, ws, hlines, hhere, hbefore, hafter, hcalls⟩ := ih hmem
      obtain ⟨hskipped, hrest⟩ := advance_next_rest hline
      have hnumber : number + (line :: (rest.take skipped ++ before)).length =
          number + 1 + skipped + before.length := by
        rw [List.length_cons, List.length_append, List.length_take, Nat.min_eq_left hskipped]
        omega
      -- a definition and its body stay together on one side of the cut
      have hline' := hrest before
      have hbefore' : Passes limit levels inMacro (number + 1 + skipped)
          ((rest.take skipped ++ before).drop skipped) d₁ us v.before := by
        rwa [List.drop_left' (by rw [List.length_take, Nat.min_eq_left hskipped])]
      refine ⟨line :: (rest.take skipped ++ before), _, ws, ?_, ?_, .next hline' hbefore', ?_, ?_⟩
      · rw [List.cons_append, List.append_assoc, ← hlines, List.take_append_drop]
      · rw [hnumber, hhere]
      · rwa [hnumber]
      · rw [calls_next hline, calls_next hline', hcalls]
  | @expand levels inMacro number line rest name body d d₀ d₁ d₂ vs ws' hline inner tail _ ih =>
    rcases List.mem_cons.mp hv with rfl | hmem
    · exact ⟨[], [], _, rfl, rfl, .done, .expand hline inner tail, by simp⟩
    · rcases List.mem_append.mp hmem with hmem | hmem
      · -- the visits inside a body are not at the top level
        have hinside := inner.inMacro_isSome rfl hmem
        rw [houter] at hinside
        cases hinside
      · obtain ⟨before, us, ws, hlines, hhere, hbefore, hafter, hcalls⟩ := ih hmem
        have hnumber : number + (line :: before).length = number + 1 + before.length := by
          rw [List.length_cons]
          omega
        have hline' := advance_expand_rest hline before
        refine ⟨line :: before, _, ws, ?_, ?_, .expand hline' inner hbefore, ?_, ?_⟩
        · rw [List.cons_append, ← hlines]
        · rw [hnumber, hhere]
        · rwa [hnumber]
        · rw [calls_expand hline, calls_expand hline', calls_append, calls_append, hcalls]
          omega

theorem inline (h : Passes limit levels inMacro number lines d vs d') (hv : v ∈ vs)
    (houter : inMacro = none) (htop : v.here.inMacro = none)
    (hcall : v.effect? = some (.expand name body)) : ∃ before ws e',
      lines = before ++ v.line :: v.rest ∧ v.here.line = number + before.length ∧
      Passes limit levels inMacro number (before ++ (body ++ v.rest)) d ws e' ∧ d'.Alike e' ∧
      calls vs = calls ws + 1 := by
  obtain ⟨before, us, ws, hlines, hhere, hbefore, hafter, hcalls⟩ := h.split hv htop
  refine ⟨before, ?_⟩
  have heq : v = ⟨v.here, v.line, v.rest, v.before⟩ := rfl
  rw [hhere] at heq
  cases hafter with
  | next hline tail =>
    have hexpands := expands_of_next hline
    rw [← heq, Visit.expands, hcall] at hexpands
    cases hexpands
  | @expand levels _ _ _ _ name' body' _ d₀ d₁ _ vs' ws' hline inner tail =>
    have heffect := effect?_of_expand hline
    rw [← heq, hcall] at heffect
    obtain ⟨rfl, rfl⟩ := Effect.expand.inj (Option.some.inj heffect)
    obtain ⟨rfl, _⟩ := (Draft.Alike.refl v.before).advance_expand v.here hline
    -- the body at the level of the call, then what follows it, then what precedes it
    obtain ⟨vs₁, e₁, hvs₁, halike₁, hcalls₁⟩ := inner.alike (Nat.le_succ levels)
      (fun _ => houter) ((Draft.Alike.refl v.before).note _) (number + before.length)
    obtain ⟨vs₂, e₂, hvs₂, halike₂, hcalls₂⟩ := tail.alike (le_refl _) id halike₁
      (number + before.length + body.length)
    obtain ⟨vs₃, hvs₃, hcalls₃⟩ := hvs₁.append hvs₂
    obtain ⟨vs₄, hvs₄, hcalls₄⟩ := hbefore.append hvs₃
    refine ⟨vs₄, e₂, hlines, congrArg Location.line hhere, hvs₄, halike₂, ?_⟩
    rw [hcalls, calls_expand hline, calls_append, hcalls₄, hcalls₃, hcalls₁, hcalls₂]
    omega

/-- A call inside a macro is one inside a call at the top level. -/
theorem exists_call (h : Passes limit levels inMacro number lines d vs d')
    (houter : inMacro = none) (hcalls : calls vs ≠ 0) :
    ∃ v ∈ vs, v.here.inMacro = none ∧ ∃ name body, v.effect? = some (.expand name body) := by
  induction h with
  | done => simp at hcalls
  | next hline tail ih =>
    rw [calls_next hline] at hcalls
    obtain ⟨v, hv, htop, hcall⟩ := ih houter hcalls
    exact ⟨v, List.mem_cons_of_mem _ hv, htop, hcall⟩
  | expand hline inner tail ihinner ihtail =>
    exact ⟨_, List.mem_cons_self, houter, _, _, effect?_of_expand hline⟩

end Passes

/-- A line that calls a macro, at the top level, is replaced by the lines of the body. -/
def Inlines (config : Config) (source target : List String) : Prop :=
  ∃ v ∈ visitsOf config source, v.here.inMacro = none ∧
    ∃ name body, v.effect? = some (.expand name body) ∧
      target = source.take (v.here.line - 1) ++ body ++ source.drop v.here.line

theorem assembleSource_of_inlines {source target : List String}
    (h : (assembleSource config source).result = .ok p) (hinline : Inlines config source target) :
    (assembleSource config target).result = .ok p ∧
      calls (visitsOf config source) = calls (visitsOf config target) + 1 := by
  obtain ⟨v, hv, htop, name, body, hcall, rfl⟩ := hinline
  obtain ⟨d, _, hpass, _⟩ := assembleSource_ok h
  obtain ⟨before, ws, e, hlines, hnumber, hws, halike, hcalls⟩ :=
    (passes_of_assembleLines hpass).inline hv rfl htop hcall
  have htarget : source.take (v.here.line - 1) ++ body ++ source.drop v.here.line =
      before ++ (body ++ v.rest) := by
    rw [hnumber, hlines, Nat.add_sub_cancel_left, List.take_left' rfl, List.append_assoc,
      Nat.add_comm 1 before.length, ← List.drop_drop, List.drop_left' rfl, List.drop_one,
      List.tail_cons]
  rw [htarget]
  have hpass' : pass config (before ++ (body ++ v.rest)) = .ok e := assembleLines_of_passes hws
  have hvisits : visitsOf config (before ++ (body ++ v.rest)) = ws := visits_of_passes hws
  rw [hvisits]
  refine ⟨?_, hcalls⟩
  rw [assembleSource_eq, hpass] at h
  rw [assembleSource_eq, hpass']
  exact halike.finish h

theorem assembleSource_of_reflTransGen {source target : List String}
    (h : (assembleSource config source).result = .ok p)
    (hinlines : Relation.ReflTransGen (Inlines config) source target) :
    (assembleSource config target).result = .ok p := by
  induction hinlines with
  | refl => exact h
  | tail _ hstep ih => exact (assembleSource_of_inlines ih hstep).1

theorem exists_expanded {source : List String} (h : (assembleSource config source).result = .ok p) :
    ∃ target, Relation.ReflTransGen (Inlines config) source target ∧
      calls (visitsOf config target) = 0 := by
  induction hn : calls (visitsOf config source) generalizing source with
  | zero => exact ⟨source, .refl, hn⟩
  | succ n ih =>
    obtain ⟨d, _, hpass, _⟩ := assembleSource_ok h
    obtain ⟨v, hv, htop, name, body, hcall⟩ := (passes_of_assembleLines hpass).exists_call rfl
      (Nat.ne_of_gt (Nat.lt_of_lt_of_eq (Nat.succ_pos n) hn.symm))
    have hinline : Inlines config source _ := ⟨v, hv, htop, name, body, hcall, rfl⟩
    obtain ⟨hresult, hcalls⟩ := assembleSource_of_inlines h hinline
    obtain ⟨target, hchain, hnone⟩ := ih hresult (by omega)
    exact ⟨target, .head hinline hchain, hnone⟩

/-- To replace a call by the lines of its macro does not change the program. The calls are one
fewer then, so that the replacements come to an end, with a source that calls no macro. -/
theorem inlining_of_assembleSource {source : List String}
    (h : (assembleSource config source).result = .ok p) :
    (∀ target, Inlines config source target →
      (assembleSource config target).result = .ok p ∧
        calls (visitsOf config source) = calls (visitsOf config target) + 1) ∧
    (∀ target, Relation.ReflTransGen (Inlines config) source target →
      (assembleSource config target).result = .ok p) ∧
    ∃ target, Relation.ReflTransGen (Inlines config) source target ∧
      ∀ v ∈ visitsOf config target, v.expands = false := by
  refine ⟨fun target => assembleSource_of_inlines h, fun target => assembleSource_of_reflTransGen h,
    ?_⟩
  obtain ⟨target, hchain, hnone⟩ := exists_expanded h
  refine ⟨target, hchain, ?_⟩
  intro v hv
  simpa using List.countP_eq_zero.mp hnone v hv

theorem inlining_of_bump : ∃ p,
    (assembleSource .least ["macro bump", "add $1", ".end", "bump", "nop"]).result = .ok p ∧
    (assembleSource .least ["macro bump", "add $1", ".end", "add $1", "nop"]).result = .ok p := by
  cases h : (assembleSource .least ["macro bump", "add $1", ".end", "bump", "nop"]).result with
  | ok p =>
    have hvisit : (visitsOf .least ["macro bump", "add $1", ".end", "bump", "nop"])[1]?.map
        (fun v => (v.here, v.effect?)) = some (⟨4, none⟩, some (.expand "bump" ["add $1"])) := by
      cbv
    obtain ⟨v, hv, hpair⟩ := Option.map_eq_some_iff.mp hvisit
    obtain ⟨hhere, hcall⟩ := Prod.mk.inj hpair
    refine ⟨p, rfl, ((inlining_of_assembleSource h).1 _ ?_).1⟩
    refine ⟨v, List.mem_of_getElem? hv, by rw [hhere], "bump", ["add $1"], hcall, ?_⟩
    rw [hhere]
    rfl
  | error e =>
    have hsome : (assembleSource .least ["macro bump", "add $1", ".end", "bump", "nop"]).result.isOk
        = true := by
      cbv
    rw [h] at hsome
    cases hsome

end WordMachine.Assembly
