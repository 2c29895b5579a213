import WordMachine.Proofs.Assembly.Reassembly
import WordMachine.Proofs.CommandLine.Folders
import WordMachine.Proofs.CommandLine.Requests
import WordMachine.Proofs.CommandLine.Sessions

/-!
# Invocations

An invocation ends in one of a few ways. Nothing is saved before the image is loaded, and then only
where the output goes.
-/

namespace WordMachine.CommandLine

variable {s t : Session}

def Exit.of : Except Exit Unit → Exit
  | .ok () => success
  | .error exit => exit

def Exit.ofOutcome : StepOutcome → Exit
  | .fault _ => faulted
  | _ => success

namespace RunRequest

/-- A machine as it is switched on for the request, with the words in its memory from address 0 on
and zeros after them. -/
structure Holds (r : RunRequest) (words : Array Word) (m : Machine) : Prop where
  size : m.size = .standard
  cells : ∀ a, m.peek a = words[MemorySize.standard.slot a]?.getD 0
  registers : m.registers = {}
  ports : m.ports = { switches := r.switches }
  runState : m.runState = .running

theorem holds_load (r : RunRequest) (words : Array Word) :
    r.Holds words ((Machine.powerOn .standard r.switches).load words) where
  size := rfl
  cells a := by
    have hzero : (Memory.zero .standard).read a = 0 := Memory.read_zero _ a
    rw [← hzero]
    exact Memory.read_load _ words a
  registers := rfl
  ports := rfl
  runState := rfl

def runOf (r : RunRequest) (m : Machine) (console : StreamConsole) : Run StreamConsole :=
  m.run (fun _ => r.trace) r.maxCycles console

/-- The exit is that of the machine's run, and the session's output goes on with what the run puts
out. -/
structure Ran (r : RunRequest) (m : Machine) (s t : Session) (exit : Exit) : Prop where
  exit : exit = .ofOutcome (r.runOf m s.console).outcome
  output : t.output =
    s.output ++ if s.outputFull then [] else (r.runOf m s.console).console.output.toList

/-- The session goes on with the run of a machine that holds the image. -/
def Executes (r : RunRequest) (image : Image) (s t : Session) (exit : Exit) : Prop :=
  ∃ m, r.Holds image.words m ∧ r.Ran m s t exit

end RunRequest

def BuildRequest.destination (r : BuildRequest) : Path := r.output.getD r.input.imageBeside

namespace Request

def output? : Request → Option Path
  | help => none
  | build r => some r.destination
  | run r => r.output

def load (f : Folder) : Request → Except Exit (Option Image)
  | help => .ok none
  | build r => (f.program r.input).map fun program => some program.image
  | run r => (f.image r).map some

theorem load_build {f : Folder} {r : BuildRequest} {program : Except Exit Assembly.Program}
    (h : program = f.program r.input) :
    (build r).load f = program.map fun program => some program.image := by
  rw [load, h]

theorem load_run {f : Folder} {r : RunRequest} {image : Except Exit Image}
    (h : image = f.image r) : (run r).load f = image.map some := by
  rw [load, h]

end Request

/-- The ways in which an invocation ends, and what it leaves in each. -/
inductive Session.Ends (s t : Session) : Except UsageError Request → Exit → Prop
  | help (hfolder : t.folder = s.folder) : Ends s t (.ok .help) .success
  | refused {e : UsageError} (hfolder : t.folder = s.folder) : Ends s t (.error e) .usage
  | unprinted {request : Except UsageError Request} (hfull : s.outputFull = true)
      (hfolder : t.folder = s.folder) : Ends s t request .unprinted
  | unloaded {request : Request} {exit : Exit} (hload : request.load s.folder = .error exit)
      (hfolder : t.folder = s.folder) : Ends s t (.ok request) exit
  | unsaved {request : Request} {image : Image} {path : Path} {e : SaveError}
      (hload : request.load s.folder = .ok (some image)) (hpath : request.output? = some path)
      (hsave : s.folder.save path (Octets.ofString image.text) = .error e)
      (hfolder : t.folder = s.folder) : Ends s t (.ok request) .unsaved
  | built {r : BuildRequest} {program : Assembly.Program} {exit : Exit}
      (hload : s.folder.program r.input = .ok program)
      (hsave : s.folder.save r.destination (Octets.ofString program.image.text) = .ok t.folder)
      (hexit : exit = .success ∨ exit = .unprinted ∧ s.outputFull = true) :
      Ends s t (.ok (.build r)) exit
  | ran {r : RunRequest} {image : Image} {exit : Exit} (hload : s.folder.image r = .ok image)
      (hsave : match r.output with
        | none => t.folder = s.folder
        | some path => s.folder.save path (Octets.ofString image.text) = .ok t.folder)
      (hrun : r.Executes image s t exit) : Ends s t (.ok (.run r)) exit

theorem ensures_build (r : BuildRequest) (s : Session) : Ensures (Session.host.build r) s
    fun a t => s.Ends t (.ok (.build r)) (.of a) := by
  refine (ensures_assembleFile r.input r.verbose s).bind ?_ ?_
  · rintro program t ⟨hprogram, _, rfl⟩
    refine (ensures_saveImage program.image r.destination _).bind ?_ ?_
    · rintro _ _ (⟨folder, hsave, -, rfl⟩ | ⟨-, h, -⟩)
      · -- the file is written by now, whatever comes of the printing
        have hrest : ∀ (line : String) (u : Session), u.folder = folder →
            u.outputFull = s.outputFull → Ensures (Session.host.printLine line) u
              fun a t => s.Ends t (.ok (.build r)) (.of a) := by
          rintro line u hfolder hfull
          refine (ensures_printLine line u).mono ?_
          rintro a t ⟨ht, ha⟩
          refine .built hprogram.symm (hsave.trans (congrArg _ (ht.trans hfolder).symm)) ?_
          rcases ha with rfl | ⟨rfl, hu⟩
          · exact .inl rfl
          · exact .inr ⟨rfl, hfull.symm.trans hu⟩
        cases r.verbose with
        | true => exact Ensures.lift_bind (hrest _ _ rfl rfl)
        | false => exact hrest _ _ rfl rfl
      · contradiction
    · rintro exit t (⟨_, _, h, -⟩ | ⟨⟨e, hsave⟩, h, _, rfl⟩)
      · contradiction
      · obtain rfl := Except.error.inj h
        exact .unsaved (Request.load_build hprogram) rfl hsave rfl
  · rintro exit t ⟨hexit, _, rfl⟩
    exact .unloaded (Request.load_build hexit) rfl

theorem ensures_execute (r : RunRequest) (machine : Machine) (s : Session) : Ensures (do
      let ⟨cycles, outcome, machine⟩ ← Session.host.execute r.trace r.maxCycles machine
      if r.trace then Session.host.report (runSummary cycles machine)
      match outcome with
      | .fault cause =>
        Session.host.report (faultReport cause cycles machine)
        throw Exit.faulted
      | _ => return ()) s
    fun a t => t.folder = s.folder ∧ r.Ran machine s t (.of a) := by
  refine Ensures.lift_bind ?_
  have hexecute : ∃ diagnostics, (Session.host.execute r.trace r.maxCycles machine).run s =
        (⟨(r.runOf machine s.console).cycles, (r.runOf machine s.console).outcome,
          (r.runOf machine s.console).machine⟩,
        { s with
          output := s.output ++ if s.outputFull then []
            else (r.runOf machine s.console).console.output.toList
          diagnostics }) := ⟨_, rfl⟩
  obtain ⟨diagnostics, hexecute⟩ := hexecute
  rw [hexecute]
  have hrest : ∀ u : Session, u.folder = s.folder →
      u.output = s.output ++ (if s.outputFull then []
        else (r.runOf machine s.console).console.output.toList) →
      Ensures (do
        match (r.runOf machine s.console).outcome with
        | .fault cause =>
          Session.host.report (faultReport cause (r.runOf machine s.console).cycles
            (r.runOf machine s.console).machine)
          throw Exit.faulted
        | _ => return ()) u fun a t => t.folder = s.folder ∧ r.Ran machine s t (.of a) := by
    intro u hfolder houtput
    cases houtcome : (r.runOf machine s.console).outcome with
    | fault cause => exact ⟨hfolder, by rw [houtcome]; rfl, houtput⟩
    | halted => exact ⟨hfolder, by rw [houtcome]; rfl, houtput⟩
    | continuing => exact ⟨hfolder, by rw [houtcome]; rfl, houtput⟩
  dsimp only
  split
  · exact Ensures.lift_bind (hrest _ rfl rfl)
  · exact hrest _ rfl rfl

theorem ensures_run (r : RunRequest) (s : Session) : Ensures (Session.host.run r) s
    fun a t => s.Ends t (.ok (.run r)) (.of a) := by
  refine (ensures_loadImage r s).bind ?_ ?_
  · rintro image t ⟨himage, diagnostics, rfl⟩
    cases houtput : r.output with
    | none =>
      refine (ensures_execute r _ _).mono ?_
      rintro a t ⟨hfolder, hrun⟩
      refine .ran himage.symm ?_ ⟨_, r.holds_load image.words, hrun.exit, hrun.output⟩
      rw [houtput]
      exact hfolder
    | some path =>
      refine (ensures_saveImage image path _).bind ?_ ?_
      · rintro _ _ (⟨folder, hsave, -, rfl⟩ | ⟨-, h, -⟩)
        · refine (ensures_execute r _ _).mono ?_
          rintro a t ⟨hfolder, hrun⟩
          refine .ran himage.symm ?_ ⟨_, r.holds_load image.words, hrun.exit, hrun.output⟩
          rw [houtput]
          exact hsave.trans (congrArg _ hfolder.symm)
        · contradiction
      · rintro exit t (⟨_, _, h, -⟩ | ⟨⟨e, hsave⟩, h, _, rfl⟩)
        · contradiction
        · obtain rfl := Except.error.inj h
          exact .unsaved (Request.load_run himage) houtput hsave rfl
  · rintro exit t ⟨hexit, _, rfl⟩
    exact .unloaded (Request.load_run hexit) rfl

theorem ensures_help (s : Session) : Ensures (Session.host.perform (.ok .help)) s
    fun a t => s.Ends t (.ok .help) (.of a) := by
  refine (ensures_printLine usage s).mono ?_
  rintro a t ⟨hfolder, rfl | ⟨rfl, hfull⟩⟩
  · exact .help hfolder
  · exact .unprinted hfull hfolder

theorem ensures_refuse (e : UsageError) (s : Session) : Ensures (Session.host.perform (.error e)) s
    fun a t => s.Ends t (.error e) (.of a) := by
  have hfail : ∀ message : String, Ensures (Session.host.fail .usage message) s
      fun a t => s.Ends t (.error e) (.of a) := by
    intro message
    refine (Ensures.fail .usage message s).mono ?_
    rintro a t ⟨rfl, _, rfl⟩
    exact .refused rfl
  cases e with
  | help =>
    refine (ensures_printLine usage s).bind ?_ ?_
    · rintro _ t ⟨hfolder, -⟩
      exact .refused hfolder
    · rintro exit t ⟨hfolder, h | ⟨h, hfull⟩⟩
      · contradiction
      · obtain rfl := Except.error.inj h
        exact .unprinted hfull hfolder
  | _ => exact hfail _

theorem ends_invoke (s : Session) (args : List Octets) :
    s.Ends (s.invoke args).2 (Request.ofArguments args) (s.invoke args).1 := by
  have hinvoke : s.invoke args =
      (.of ((Session.host.perform (Request.ofArguments args)).run.run s).1,
        ((Session.host.perform (Request.ofArguments args)).run.run s).2) := by
    unfold Session.invoke Host.invoke
    rw [StateT.run_bind]
    rcases (Session.host.perform (Request.ofArguments args)).run.run s with ⟨exit | a, t⟩ <;> rfl
  rw [hinvoke]
  change Ensures _ s fun a t => s.Ends t (Request.ofArguments args) (.of a)
  cases Request.ofArguments args with
  | ok request =>
    cases request with
    | help => exact ensures_help s
    | build r => exact ensures_build r s
    | run r => exact ensures_run r s
  | error e => exact ensures_refuse e s

theorem error_of_mapError {α ε : Type} {x : Except ε α} {e e' : Exit}
    (h : (x.mapError fun _ => e) = .error e') : e' = e := by
  cases x with
  | ok a => contradiction
  | error _ => exact (Except.error.inj h).symm

namespace Folder

variable {f : Folder} {path : Path} {exit : Exit} {r : RunRequest}

theorem source_error (h : f.source path = .error exit) : exit = .unreadable := by
  unfold source at h
  split at h
  · exact (Except.error.inj h).symm
  · split at h
    · contradiction
    · exact (Except.error.inj h).symm

theorem program_error (h : f.program path = .error exit) :
    exit = .unreadable ∨ exit = .unassembled := by
  unfold program at h
  split at h
  · rename_i hsource
    obtain rfl := Except.error.inj h
    exact .inl (source_error hsource)
  · exact .inr (error_of_mapError h)

theorem image_error (h : f.image r = .error exit) :
    exit = .unreadable ∨ exit = .unassembled ∨ exit = .unloadable := by
  unfold image at h
  split at h
  · exact (program_error (error_of_map h)).imp_right .inl
  · split at h
    · rename_i hsource
      obtain rfl := Except.error.inj h
      exact .inl (source_error hsource)
    · exact .inr (.inr (error_of_mapError h))

end Folder

theorem Request.load_error {request : Request} {f : Folder} {exit : Exit}
    (h : request.load f = .error exit) :
    exit = .unreadable ∨ exit = .unassembled ∨ exit = .unloadable := by
  cases request with
  | help => contradiction
  | build r => exact (Folder.program_error (error_of_map h)).imp_right .inl
  | run r => exact Folder.image_error (error_of_map h)

namespace Session.Ends

variable {request : Except UsageError Request} {exit : Exit}

theorem unchanged_or_saved (h : s.Ends t request exit) : t.folder = s.folder ∨
    (∃ r path image, request = .ok r ∧ r.output? = some path ∧
      r.load s.folder = .ok (some image) ∧
      s.folder.save path (Octets.ofString image.text) = .ok t.folder) ∧
    (exit = .success ∨ exit = .faulted ∨ exit = .unprinted) := by
  cases h with
  | help hfolder | refused hfolder => exact .inl hfolder
  | unprinted _ hfolder | unloaded _ hfolder => exact .inl hfolder
  | unsaved _ _ _ hfolder => exact .inl hfolder
  | @built r program _ hload hsave hexit =>
    refine .inr ⟨⟨_, _, _, rfl, rfl, Request.load_build hload.symm, hsave⟩, ?_⟩
    rcases hexit with rfl | ⟨rfl, -⟩
    · exact .inl rfl
    · exact .inr (.inr rfl)
  | @ran r image _ hload hsave hrun =>
    cases houtput : r.output with
    | none =>
      rw [houtput] at hsave
      exact .inl hsave
    | some path =>
      rw [houtput] at hsave
      refine .inr ⟨⟨_, _, _, rfl, houtput, Request.load_run hload.symm, hsave⟩, ?_⟩
      obtain ⟨m, -, hran⟩ := hrun
      rw [hran.exit]
      cases (r.runOf m s.console).outcome with
      | fault cause => exact .inr (.inl rfl)
      | halted => exact .inl rfl
      | continuing => exact .inl rfl

theorem ne_unprinted (h : s.Ends t request exit) (hfull : s.outputFull = false) :
    exit ≠ .unprinted := by
  rintro rfl
  cases h with
  | unprinted h => simp [hfull] at h
  | unloaded hload => simpa using Request.load_error hload
  | built _ _ hexit => simp [hfull] at hexit
  | @ran r image _ _ _ hrun =>
    obtain ⟨m, -, hran⟩ := hrun
    have hexit := hran.exit
    cases houtcome : (r.runOf m s.console).outcome <;> simp [houtcome, Exit.ofOutcome] at hexit

theorem built_of_success {r : BuildRequest} (h : s.Ends t (.ok (.build r)) .success) :
    ∃ program, s.folder.program r.input = .ok program ∧
      s.folder.save r.destination (Octets.ofString program.image.text) = .ok t.folder := by
  cases h with
  | unloaded hload => simpa using Request.load_error hload
  | built hload hsave => exact ⟨_, hload, hsave⟩

theorem exit_of_loaded {r : BuildRequest} {program : Assembly.Program}
    (h : s.Ends t (.ok (.build r)) exit) (hfull : s.outputFull = false)
    (hload : s.folder.program r.input = .ok program) :
    exit = match s.folder.save r.destination (Octets.ofString program.image.text) with
      | .ok _ => .success
      | .error _ => .unsaved := by
  have himage : (Request.build r).load s.folder = .ok (some program.image) :=
    Request.load_build hload.symm
  cases h with
  | unprinted h => simp [hfull] at h
  | unloaded h => simp [himage] at h
  | unsaved h hpath hfail =>
    obtain rfl := Option.some.inj (Except.ok.inj (himage.symm.trans h))
    obtain rfl := Option.some.inj hpath
    rw [hfail]
  | built h hsave hexit =>
    obtain rfl := Except.ok.inj (hload.symm.trans h)
    rw [hsave]
    simpa [hfull] using hexit

theorem ran_of_executed {r : RunRequest} (h : s.Ends t (.ok (.run r)) exit)
    (hexit : exit = .success ∨ exit = .faulted) : ∃ image, s.folder.image r = .ok image ∧
      r.Executes image s t exit ∧ ∀ path, r.output = some path →
        s.folder.save path (Octets.ofString image.text) = .ok t.folder := by
  cases h with
  | unprinted => simp at hexit
  | unsaved => simp at hexit
  | unloaded hload =>
    rcases Request.load_error hload with rfl | rfl | rfl <;> simp at hexit
  | ran hload hsave hrun =>
    refine ⟨_, hload, hrun, fun path hpath => ?_⟩
    rw [hpath] at hsave
    exact hsave

theorem unchanged_of_run {r : RunRequest} (h : s.Ends t (.ok (.run r)) exit)
    (houtput : r.output = none) : t.folder = s.folder := by
  cases h with
  | unprinted _ hfolder | unloaded _ hfolder => exact hfolder
  | unsaved _ _ _ hfolder => exact hfolder
  | ran _ hsave =>
    rw [houtput] at hsave
    exact hsave

end Session.Ends

theorem Exit.eq_success_of_code {exit : Exit} (h : exit.code = 0) : exit = .success := by
  revert h
  cases exit <;> decide

theorem Exit.executed_of_code {exit : Exit} (h : exit.code ∈ [0, 5]) :
    exit = .success ∨ exit = .faulted := by
  revert h
  cases exit <;> decide

/-- An invocation changes nothing but its output, and that only after it has loaded its image. -/
theorem invocation_confined (s : Session) (args : List Octets) :
    (∀ place, (s.invoke args).2.folder.node? place ≠ s.folder.node? place →
      ∃ request path image, Request.ofArguments args = .ok request ∧
        request.output? = some path ∧ s.folder.find path = .ok place ∧
        request.load s.folder = .ok (some image)) ∧
    ((s.invoke args).1.code ∈ [1, 2, 3, 4, 6] → (s.invoke args).2.folder = s.folder) ∧
    (s.outputFull = false → (s.invoke args).1.code ∈ [0, 1, 2, 3, 4, 5, 6]) ∧
    (∀ r, Request.ofArguments args = .ok (.build r) →
      r.output = lastOutput (OptionTable.build.items args.tail) ∧
      ((s.invoke args).1.code = 0 → ∃ program, s.folder.program r.input = .ok program ∧
        s.folder.Keeps r.destination (Octets.ofString program.image.text)
          (s.invoke args).2.folder)) ∧
    ∀ r, Request.ofArguments args = .ok (.run r) →
      r.output = lastOutput (OptionTable.run.items args.tail) ∧
      (r.output = none → (s.invoke args).2.folder = s.folder) ∧
      ((s.invoke args).1.code ∈ [0, 5] → ∃ image, s.folder.image r = .ok image ∧
        r.Executes image s (s.invoke args).2 (s.invoke args).1 ∧
        ∀ path, r.output = some path → s.folder.Keeps path (Octets.ofString image.text)
          (s.invoke args).2.folder) := by
  have hends := ends_invoke s args
  refine ⟨?_, ?_, ?_, ?_, ?_⟩
  · intro place hplace
    rcases hends.unchanged_or_saved with hsame | ⟨⟨r, path, image, hr, hpath, hload, hsave⟩, -⟩
    · rw [hsame] at hplace
      contradiction
    · obtain ⟨place', hfind, -, hsaved⟩ := Folder.saved_of_save hsave
      by_cases hne : place = place'
      · subst hne
        exact ⟨r, path, image, hr, hpath, hfind, hload⟩
      · exact absurd (hsaved.node?_of_ne hne) hplace
  · intro hcode
    rcases hends.unchanged_or_saved with hsame | ⟨-, hexit | hexit | hexit⟩
    · exact hsame
    all_goals
      rw [hexit] at hcode
      simp [Exit.code] at hcode
  · intro hfull
    have hexit := hends.ne_unprinted hfull
    cases h : (s.invoke args).1 <;> simp [h, Exit.code] at hexit ⊢
  · intro r hr
    rw [hr] at hends
    refine ⟨Request.output_of_build hr, fun hcode => ?_⟩
    have hexit : (s.invoke args).1 = .success := Exit.eq_success_of_code hcode
    rw [hexit] at hends
    obtain ⟨program, hload, hsave⟩ := hends.built_of_success
    exact ⟨program, hload, Folder.keeps_of_save hsave⟩
  · intro r hr
    rw [hr] at hends
    refine ⟨Request.output_of_run hr, hends.unchanged_of_run, fun hcode => ?_⟩
    obtain ⟨image, hload, hrun, hsave⟩ := hends.ran_of_executed (Exit.executed_of_code hcode)
    exact ⟨image, hload, hrun, fun path hpath => Folder.keeps_of_save (hsave path hpath)⟩

def besideSingle : Place := ⟨.above 0, [Octets.ofString "a.hex"]⟩

/-- A session with a single file, the source of one number, and with no space for its image if
`full`. -/
def Session.single (full : Bool) : Session where
  folder :=
    { nodes := [(⟨.above 0, [Octets.ofString "a.s"]⟩, .file (Octets.ofString "$0007"))]
      refusals := if full then [((besideSingle, .write), .noSpace)] else [] }

def buildSingle : List Octets := ["build", "a.s"].map Octets.ofString

theorem program_single (full : Bool) :
    ∃ p, (Session.single full).folder.program (.ofString "a.s") = .ok p ∧
      p.image.text = "0007\n" := by
  have hsource : (Session.single full).folder.source (.ofString "a.s") = .ok "$0007" := by
    cases full <;> decide +kernel
  have hdigits : List.Forall₂ Text.Hex.IsDigit ['0', '0', '0', '7'] [0, 0, 0, 7] :=
    .cons (.inl rfl) (.cons (.inl rfl) (.cons (.inl rfl) (.cons (.inl rfl) .nil)))
  have hline : Assembly.Renders "$0007" 7 := .number ⟨by decide, _, hdigits, rfl⟩
  obtain ⟨p, hp, hwords, -⟩ := Assembly.result_of_rendered {} (.cons hline .nil) (by decide)
  have hresult : (Assembly.assemble {} "$0007").result = .ok p := hp
  refine ⟨p, ?_, ?_⟩
  · simp only [Folder.program, hsource, hresult]
    rfl
  · rw [Image.text, hwords]
    decide

theorem ofArguments_buildSingle : Request.ofArguments buildSingle =
    .ok (.build ⟨.ofString "a.s", none, false⟩) := by decide +kernel

theorem destination_single : BuildRequest.destination ⟨.ofString "a.s", none, false⟩ =
    .ofString "a.hex" := by decide +kernel

theorem exit_single (full : Bool) : ((Session.single full).invoke buildSingle).1 =
    if full then .unsaved else .success := by
  have hsave : (Session.single full).folder.save (.ofString "a.hex") (Octets.ofString "0007\n") =
      if full then .error (.write .noSpace)
      else .ok ((Session.single full).folder.put besideSingle
        (.file (Octets.ofString "0007\n"))) := by
    cases full <;> decide +kernel
  obtain ⟨p, hp, htext⟩ := program_single full
  have hends := ends_invoke (Session.single full) buildSingle
  rw [ofArguments_buildSingle] at hends
  have hexit := hends.exit_of_loaded rfl hp
  rw [destination_single, htext, hsave] at hexit
  cases full <;> exact hexit

/-- The source is built, and its image is the one file that is new; without space for it there is
none. -/
theorem invocation_confined_single :
    (((Session.single false).invoke buildSingle).1.code = 0 ∧
      ((Session.single false).invoke buildSingle).2.folder.look besideSingle =
        .ok (some (.file (Octets.ofString "0007\n"))) ∧
      ∀ place, place ≠ besideSingle →
        ((Session.single false).invoke buildSingle).2.folder.node? place =
          (Session.single false).folder.node? place) ∧
    ((Session.single true).invoke buildSingle).1.code = 6 ∧
      ((Session.single true).invoke buildSingle).2.folder = (Session.single true).folder := by
  have hfind : (Session.single false).folder.find (.ofString "a.hex") = .ok besideSingle := by
    decide +kernel
  have hfree : (Session.single false).folder.node? besideSingle = none := by decide +kernel
  have hcode : ((Session.single false).invoke buildSingle).1.code = 0 :=
    congrArg Exit.code (exit_single false)
  have hrefused : ((Session.single true).invoke buildSingle).1.code = 6 :=
    congrArg Exit.code (exit_single true)
  obtain ⟨htouch, -, -, hbuild, -⟩ := invocation_confined (Session.single false) buildSingle
  obtain ⟨-, hunchanged, -⟩ := invocation_confined (Session.single true) buildSingle
  refine ⟨⟨hcode, ?_, ?_⟩, hrefused, hunchanged (by simp [hrefused])⟩
  · obtain ⟨p, hp, htext⟩ := program_single false
    obtain ⟨p', hp', place, hled, -, hkeeps⟩ := (hbuild _ ofArguments_buildSingle).2 hcode
    obtain rfl := Except.ok.inj (hp.symm.trans hp')
    rw [destination_single] at hled
    obtain rfl := Except.ok.inj (hfind.symm.trans hled)
    rw [htext] at hkeeps
    rcases hkeeps with hfile | ⟨hdevice, -⟩
    · exact hfile
    · rw [hfree] at hdevice
      contradiction
  · intro place hplace
    by_cases hsame : ((Session.single false).invoke buildSingle).2.folder.node? place =
        (Session.single false).folder.node? place
    · exact hsame
    · obtain ⟨request, path, image, hrequest, hpath, hled, -⟩ := htouch place hsame
      obtain rfl := Except.ok.inj (ofArguments_buildSingle.symm.trans hrequest)
      obtain rfl : BuildRequest.destination _ = path := Option.some.inj hpath
      rw [destination_single] at hled
      exact absurd (Except.ok.inj (hled.symm.trans hfind)) hplace

end WordMachine.CommandLine
