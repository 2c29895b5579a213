import WordMachine.CommandLine.Session

/-!
# Commands on a session

What the parts of a command answer, and what they leave of the session. Loading reads the folder
only, and saving is the only part that changes it.
-/

namespace WordMachine.CommandLine

/-- What holds of the answer of a command and of the session that it leaves. -/
def Ensures {α : Type} (x : ExceptT Exit (StateM Session) α) (s : Session)
    (post : Except Exit α → Session → Prop) : Prop :=
  post (x.run.run s).1 (x.run.run s).2

def Session.Reports (s t : Session) : Prop := ∃ diagnostics, t = { s with diagnostics }

theorem Session.Reports.refl (s : Session) : s.Reports s := ⟨s.diagnostics, rfl⟩

theorem Session.Reports.trans {s t u : Session} (h : s.Reports t) (h' : t.Reports u) :
    s.Reports u := by
  obtain ⟨_, rfl⟩ := h
  obtain ⟨diagnostics, rfl⟩ := h'
  exact ⟨diagnostics, rfl⟩

variable {α β : Type} {x : ExceptT Exit (StateM Session) α}
  {f : α → ExceptT Exit (StateM Session) β} {s t u : Session} {path : Path}

namespace Ensures

theorem mono {post post' : Except Exit α → Session → Prop} (h : Ensures x s post)
    (hpost : ∀ a t, post a t → post' a t) : Ensures x s post' :=
  hpost _ _ h

theorem bind {mid : Except Exit α → Session → Prop} {post : Except Exit β → Session → Prop}
    (h : Ensures x s mid) (hok : ∀ a t, mid (.ok a) t → Ensures (f a) t post)
    (herror : ∀ exit t, mid (.error exit) t → post (.error exit) t) : Ensures (x >>= f) s post := by
  have hrun : (x >>= f).run.run s = match x.run.run s with
      | (.ok a, t) => (f a).run.run t
      | (.error exit, t) => (.error exit, t) := by
    rw [ExceptT.run_bind, StateT.run_bind]
    rcases x.run.run s with ⟨exit | a, t⟩ <;> rfl
  unfold Ensures at h ⊢
  rw [hrun]
  revert h
  rcases x.run.run s with ⟨exit | a, t⟩
  · exact herror exit t
  · exact hok a t

theorem lift_bind {y : StateM Session α} {post : Except Exit β → Session → Prop}
    (h : Ensures (f (y.run s).1) (y.run s).2 post) : Ensures (liftM y >>= f) s post := by
  have hy : Ensures (liftM y) s fun a t => a = .ok (y.run s).1 ∧ (y.run s).2 = t := ⟨rfl, rfl⟩
  refine hy.bind ?_ ?_
  · rintro a t ⟨ha, rfl⟩
    obtain rfl := Except.ok.inj ha
    exact h
  · rintro exit t ⟨ha, -⟩
    contradiction

theorem fail (exit : Exit) (message : String) (s : Session) :
    Ensures (Session.host.fail exit message : ExceptT Exit (StateM Session) α) s
      fun a t => a = .error exit ∧ s.Reports t :=
  ⟨rfl, _, rfl⟩

end Ensures

namespace Folder

def source (f : Folder) (path : Path) : Except Exit String :=
  match f.read path with
  | .error _ => .error .unreadable
  | .ok content =>
    match content.text? with
    | some text => .ok text
    | none => .error .unreadable

def program (f : Folder) (path : Path) : Except Exit Assembly.Program :=
  match f.source path with
  | .error exit => .error exit
  | .ok source => (Assembly.assemble {} source).result.mapError fun _ => .unassembled

def image (f : Folder) (r : RunRequest) : Except Exit Image :=
  match r.format.getD (Host.formatOf r.input) with
  | .assembly => (f.program r.input).map (·.image)
  | .hex =>
    match f.source r.input with
    | .error exit => .error exit
    | .ok text => (Image.parse text .standard).mapError fun _ => .unloadable

end Folder

theorem ensures_readText (path : Path) (s : Session) : Ensures (Session.host.readText path) s
    fun text t => text = s.folder.source path ∧ s.Reports t := by
  refine Ensures.lift_bind ?_
  have hrun : (Session.host.read path).run s = (s.folder.read path, s) := rfl
  rw [hrun, Folder.source]
  cases s.folder.read path with
  | error e => exact Ensures.fail _ _ s
  | ok content =>
    cases htext : content.text? with
    | some text =>
      simp only [htext]
      exact ⟨rfl, .refl s⟩
    | none =>
      simp only [htext]
      exact Ensures.fail _ _ s

theorem ensures_assembleFile (path : Path) (logging : Bool) (s : Session) :
    Ensures (Session.host.assembleFile path logging) s
      fun program t => program = s.folder.program path ∧ s.Reports t := by
  unfold Host.assembleFile Folder.program
  refine (ensures_readText path s).bind ?_ ?_
  · rintro source t ⟨hsource, ht⟩
    simp only [← hsource]
    -- what is reported before the result is looked at does not change the result
    cases (Assembly.assemble {} source).result with
    | ok program =>
      cases logging with
      | true => exact Ensures.lift_bind ⟨rfl, ht.trans ⟨_, rfl⟩⟩
      | false => exact ⟨rfl, ht⟩
    | error e =>
      cases logging with
      | true => exact Ensures.lift_bind ⟨rfl, ht.trans ⟨_, rfl⟩⟩
      | false => exact ⟨rfl, ht.trans ⟨_, rfl⟩⟩
  · rintro exit t ⟨hexit, ht⟩
    rw [← hexit]
    exact ⟨rfl, ht⟩

theorem ensures_loadImage (r : RunRequest) (s : Session) : Ensures (Session.host.loadImage r) s
    fun image t => image = s.folder.image r ∧ s.Reports t := by
  unfold Host.loadImage Folder.image
  cases r.format.getD (Host.formatOf r.input) with
  | assembly =>
    refine (ensures_assembleFile r.input r.trace s).bind ?_ ?_
    · rintro program t ⟨hprogram, ht⟩
      rw [← hprogram]
      exact ⟨rfl, ht⟩
    · rintro exit t ⟨hexit, ht⟩
      rw [← hexit]
      exact ⟨rfl, ht⟩
  | hex =>
    refine (ensures_readText r.input s).bind ?_ ?_
    · rintro text t ⟨htext, ht⟩
      rw [← htext]
      cases hparse : Image.parse text MemorySize.standard with
      | ok image =>
        simp only [hparse]
        exact ⟨rfl, ht⟩
      | error e =>
        simp only [hparse]
        exact ⟨rfl, ht.trans ⟨_, rfl⟩⟩
    · rintro exit t ⟨hexit, ht⟩
      rw [← hexit]
      exact ⟨rfl, ht⟩

theorem ensures_saveImage (image : Image) (path : Path) (s : Session) :
    Ensures (Session.host.saveImage image path) s fun a t =>
      (∃ folder, s.folder.save path (Octets.ofString image.text) = .ok folder ∧ a = .ok () ∧
        t = { s with folder }) ∨
      (∃ e, s.folder.save path (Octets.ofString image.text) = .error e) ∧ a = .error .unsaved ∧
        s.Reports t := by
  refine Ensures.lift_bind ?_
  have hrun : (Session.host.save path (Octets.ofString image.text)).run s =
      Session.save path (Octets.ofString image.text) s := rfl
  rw [hrun, Session.save]
  cases s.folder.save path (Octets.ofString image.text) with
  | ok folder => exact .inl ⟨folder, rfl, rfl, rfl⟩
  | error e =>
    cases e with
    | create e => exact .inr ⟨⟨_, rfl⟩, rfl, _, rfl⟩
    | write e => exact .inr ⟨⟨_, rfl⟩, rfl, _, rfl⟩

theorem ensures_printLine (line : String) (s : Session) :
    Ensures (Session.host.printLine line) s fun a t =>
      t.folder = s.folder ∧ (a = .ok () ∨ a = .error .unprinted ∧ s.outputFull = true) := by
  refine Ensures.lift_bind ?_
  have hrun : (Session.host.print (line ++ "\n")).run s = Session.print (line ++ "\n") s := rfl
  rw [hrun, Session.print]
  cases hfull : s.outputFull with
  | true => exact ⟨rfl, .inr ⟨rfl, rfl⟩⟩
  | false => exact ⟨rfl, .inl rfl⟩

end WordMachine.CommandLine
