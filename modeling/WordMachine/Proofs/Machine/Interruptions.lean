import WordMachine.Proofs.Machine.Agreement

/-!
# Interrupted streams

A stream console repeats an interrupted read and an interrupted write, so a script with
interruptions serves every use of the console as the script without them does. What one use asks of
the streams is told call by call: interruptions, then the answer that counts, and after an accepted
byte one flush, which is not repeated.
-/

namespace WordMachine

inductive ConsoleUse
  | write (byte : UInt8)
  | read
  deriving DecidableEq, Repr

inductive ConsoleReply
  | written (answer : Except ConsoleError Unit)
  | taken (answer : Except ConsoleError (Option UInt8))

namespace Console

variable {κ κ' : Type} [Console κ] [Console κ'] {R : κ → κ' → Prop} {console : κ} {console' : κ'}

def reply : ConsoleUse → κ → ConsoleReply × κ
  | .write byte, console => (writeByte console byte).map .written id
  | .read, console => (readByte console).map .taken id

def replies : List ConsoleUse → κ → List ConsoleReply × κ
  | [], console => ([], console)
  | use :: uses, console =>
    (replies uses (reply use console).2).map ((reply use console).1 :: ·) id

omit [Console κ] [Console κ'] in
theorem Alike.map {α β : Type} {call : α × κ} {call' : α × κ'} (h : Alike R call call')
    (f : α → β) : Alike R (call.map f id) (call'.map f id) := by
  obtain ⟨answer, hnext⟩ := h
  exact .intro (f answer) hnext

namespace Mirrors

theorem alike_reply (hR : Mirrors R) (h : R console console') (use : ConsoleUse) :
    Alike R (reply use console) (reply use console') := by
  cases use with
  | write byte => exact (hR.write h byte).map _
  | read => exact (hR.read h).map _

theorem alike_replies (hR : Mirrors R) (h : R console console') (uses : List ConsoleUse) :
    Alike R (replies uses console) (replies uses console') := by
  induction uses generalizing console console' with
  | nil => exact .intro [] h
  | cons use uses ih =>
    have hfirst := hR.alike_reply h use
    rw [replies, replies]
    generalize reply use console = call at hfirst ⊢
    generalize reply use console' = call' at hfirst ⊢
    obtain ⟨first, hnext⟩ := hfirst
    exact (ih hnext).map _

end Mirrors

end Console

theorem Machine.twins_run_of_mirrors {κ κ' : Type} [Console κ] [Console κ'] {R : κ → κ' → Prop}
    {console : κ} {console' : κ'} (hR : Console.Mirrors R)
    (hready : ∀ {console console'}, R console console' →
      Console.Alike R (Console.inputReady console) (Console.inputReady console'))
    (h : R console console') (keep : Notice → Bool) (budget : Option Nat) (m : Machine) :
    (m.run keep budget console).Twins (Behind R) (m.run keep budget console') := by
  have hstart : Setting.Twins (Behind R) ⟨m, console⟩ ⟨m, console'⟩ := ⟨rfl, rfl, h⟩
  refine hstart.run keep budget fun t _ t' htwins _ => ?_
  obtain ⟨u, hu, hu'⟩ := htwins.exists_use
  obtain ⟨hbank, hconsole⟩ := htwins.behind
  simp only at hbank hconsole
  rw [hu, hu', hbank]
  exact u.twins_of_mirrors hR hconsole fun _ => hready hconsole

def ReadAnswer.outcome : ReadAnswer → Except ConsoleError (Option UInt8)
  | byte b => .ok (some b)
  | ended => .ok none
  | interrupted => .error (.read "interrupted")
  | failed cause => .error (.read cause)

def WriteAnswer.outcome : WriteAnswer → Except ConsoleError Unit
  | accepted => .ok ()
  | nothingTaken => .error (.write "failed to write whole buffer")
  | interrupted => .error (.write "interrupted")
  | failed cause => .error (.write cause)

def FlushAnswer.outcome : FlushAnswer → Except ConsoleError Unit
  | done => .ok ()
  | interrupted => .error (.write "interrupted")
  | failed cause => .error (.write cause)

inductive WriterCall
  | write (byte : UInt8) (answer : WriteAnswer)
  | flush (answer : FlushAnswer)
  deriving DecidableEq, Repr

namespace StreamConsole

/-- One call takes one answer from its script; once this is spent, writes are accepted and flushes
are done. Only an accepted byte goes out. -/
inductive Calls : StreamConsole → List WriterCall → StreamConsole → Prop
  | nil (c : StreamConsole) : Calls c [] c
  | accepted {c c' : StreamConsole} {calls : List WriterCall} (byte : UInt8)
      (haccepted : c.writes.headD .accepted = .accepted)
      (h : Calls { c with writes := c.writes.tail, output := c.output.push byte } calls c') :
      Calls c (.write byte .accepted :: calls) c'
  | refused {c c' : StreamConsole} {calls : List WriterCall} (byte : UInt8)
      (hrefused : c.writes.headD .accepted ≠ .accepted)
      (h : Calls { c with writes := c.writes.tail } calls c') :
      Calls c (.write byte (c.writes.headD .accepted) :: calls) c'
  | flush {c c' : StreamConsole} {calls : List WriterCall}
      (h : Calls { c with flushes := c.flushes.tail } calls c') :
      Calls c (.flush (c.flushes.headD .done) :: calls) c'

def verdict (c : StreamConsole) : WriteAnswer :=
  (c.writes.dropWhile (· = .interrupted)).headD .accepted

def callsOf (c : StreamConsole) (byte : UInt8) : List WriterCall :=
  (c.writes.takeWhile (· = .interrupted)).map (.write byte) ++ .write byte c.verdict ::
    if c.verdict = .accepted then [.flush (c.flushes.headD .done)] else []

theorem flush_eq (flushes : List FlushAnswer) :
    flush flushes = ((flushes.headD .done).outcome, flushes.tail) := by
  cases flushes with
  | nil => rfl
  | cons answer rest => cases answer <;> rfl

theorem nextByte_eq (reads : List ReadAnswer) :
    nextByte reads = (((reads.dropWhile (· = .interrupted)).headD .ended).outcome,
      (reads.dropWhile (· = .interrupted)).tail) := by
  induction reads with
  | nil => rfl
  | cons answer rest ih =>
    cases answer with
    | interrupted => exact ih
    | byte | ended | failed => rfl

theorem readByte_eq (c : StreamConsole) :
    let rest := c.reads.dropWhile (· = .interrupted)
    c.readByte = ((rest.headD .ended).outcome, { c with reads := rest.tail }) := by
  simp only [readByte, nextByte_eq]

theorem offer_eq (writes : List WriteAnswer) :
    offer writes = (((writes.dropWhile (· = .interrupted)).headD .accepted).outcome,
      (writes.dropWhile (· = .interrupted)).tail) := by
  induction writes with
  | nil => rfl
  | cons answer rest ih =>
    cases answer with
    | interrupted => exact ih
    | accepted | nothingTaken | failed => rfl

theorem writeByte_of_accepted {c : StreamConsole} (h : c.verdict = .accepted) (byte : UInt8) :
    c.writeByte byte = ((c.flushes.headD .done).outcome,
      { c with
        writes := (c.writes.dropWhile (· = .interrupted)).tail
        flushes := c.flushes.tail
        output := c.output.push byte }) := by
  have hoffer := offer_eq c.writes
  rw [← verdict, h] at hoffer
  simp only [writeByte, hoffer, WriteAnswer.outcome, flush_eq]

theorem writeByte_of_refused {c : StreamConsole} (h : c.verdict ≠ .accepted) (byte : UInt8) :
    c.writeByte byte = (c.verdict.outcome,
      { c with writes := (c.writes.dropWhile (· = .interrupted)).tail }) := by
  have hoffer := offer_eq c.writes
  rw [← verdict] at hoffer
  cases hverdict : c.verdict with
  | accepted => contradiction
  | _ =>
    rw [hverdict] at hoffer
    simp only [writeByte, hoffer, WriteAnswer.outcome]

theorem calls_callsOf (c : StreamConsole) (byte : UInt8) :
    c.Calls (c.callsOf byte) (c.writeByte byte).2 := by
  obtain ⟨reads, writes, flushes, output⟩ := c
  induction writes with
  | nil =>
    rw [writeByte_of_accepted rfl]
    exact .accepted byte rfl (.flush (.nil _))
  | cons answer rest ih =>
    cases answer with
    | interrupted => exact .refused byte nofun ih
    | accepted =>
      rw [writeByte_of_accepted rfl]
      exact .accepted byte rfl (.flush (.nil _))
    | nothingTaken | failed => exact .refused byte nofun (.nil _)

def uninterrupted (c : StreamConsole) : StreamConsole :=
  { c with
    reads := c.reads.filter (· ≠ .interrupted)
    writes := c.writes.filter (· ≠ .interrupted) }

theorem offer_filter (writes : List WriteAnswer) :
    offer (writes.filter (· ≠ .interrupted)) =
      ((offer writes).1, (offer writes).2.filter (· ≠ .interrupted)) := by
  induction writes with
  | nil => rfl
  | cons answer rest ih =>
    cases answer with
    | interrupted => simpa [offer] using ih
    | _ => simp [offer]

theorem readByte_uninterrupted (c : StreamConsole) :
    c.uninterrupted.readByte = (c.readByte.1, c.readByte.2.uninterrupted) := by
  simp only [readByte, uninterrupted, nextByte_filter]

theorem writeByte_uninterrupted (c : StreamConsole) (byte : UInt8) :
    c.uninterrupted.writeByte byte =
      ((c.writeByte byte).1, (c.writeByte byte).2.uninterrupted) := by
  simp only [writeByte, uninterrupted, offer_filter]
  rcases offer c.writes with ⟨_ | _, writes⟩ <;> rfl

theorem mirrors_uninterrupted :
    Console.Mirrors fun c c' : StreamConsole => c' = c.uninterrupted where
  write := by
    rintro c _ rfl byte
    obtain ⟨hanswer, hnext⟩ := Prod.mk.inj (c.writeByte_uninterrupted byte)
    exact .of_eq (Eq.refl (c.writeByte byte).1) hanswer hnext
  read := by
    rintro c _ rfl
    obtain ⟨hanswer, hnext⟩ := Prod.mk.inj c.readByte_uninterrupted
    exact .of_eq (Eq.refl c.readByte.1) hanswer hnext

/-- A script without its interruptions serves every sequence of uses, and every run, as the script
with them: the replies are the same, and the same bytes go out. A read takes the interruptions
before the next other answer, and this one. To write a byte the writer is asked again after each
interruption. It takes the byte at most once, and is flushed, once, just if it took the byte. A
flush that is interrupted is a failed write. -/
theorem interruptions_invisible (c : StreamConsole) :
    (∀ uses : List ConsoleUse,
      let r := Console.replies uses c
      let r' := Console.replies uses c.uninterrupted
      r'.1 = r.1 ∧ r'.2.output = r.2.output) ∧
    (∀ (keep : Notice → Bool) (budget : Option Nat) (m : Machine),
      let r := m.run keep budget c
      let r' := m.run keep budget c.uninterrupted
      r'.cycles = r.cycles ∧ r'.outcome = r.outcome ∧ r'.notices = r.notices ∧
        r'.machine = r.machine ∧ r'.console.output = r.console.output) ∧
    (let rest := c.reads.dropWhile (· = .interrupted);
      c.readByte = ((rest.headD .ended).outcome, { c with reads := rest.tail })) ∧
    (∀ byte, c.Calls (c.callsOf byte) (c.writeByte byte).2 ∧
      (c.writeByte byte).2.output =
        (if c.verdict = .accepted then c.output.push byte else c.output) ∧
      (c.writeByte byte).1 =
        if c.verdict = .accepted then (c.flushes.headD .done).outcome else c.verdict.outcome) ∧
    ∀ byte flushes, c.flushes = .interrupted :: flushes → c.verdict = .accepted →
      (c.writeByte byte).1 = .error (.write "interrupted") ∧
        (c.writeByte byte).2.flushes = flushes := by
  have hself : c.uninterrupted = c.uninterrupted := rfl
  refine ⟨fun uses => ?_, fun keep budget m => ?_, c.readByte_eq, fun byte => ?_, ?_⟩
  · have halike := mirrors_uninterrupted.alike_replies hself uses
    generalize Console.replies uses c = r at halike
    generalize Console.replies uses c.uninterrupted = r' at halike
    obtain ⟨replies, hlast⟩ := halike
    exact ⟨rfl, by rw [hlast]; rfl⟩
  · have htwins := Machine.twins_run_of_mirrors mirrors_uninterrupted
      (fun {c c'} (h : c' = c.uninterrupted) => .intro true h) hself keep budget m
    have hconsole : (m.run keep budget c.uninterrupted).console =
        (m.run keep budget c).console.uninterrupted := htwins.setting.behind.2
    refine ⟨htwins.cycles_eq, htwins.outcome_eq, htwins.notices_eq, htwins.machine_eq, ?_⟩
    exact (congrArg StreamConsole.output hconsole).trans rfl
  · refine ⟨c.calls_callsOf byte, ?_⟩
    by_cases haccepted : c.verdict = .accepted
    · simp [writeByte_of_accepted haccepted, haccepted]
    · simp [writeByte_of_refused haccepted, haccepted]
  · intro byte flushes hflushes haccepted
    rw [writeByte_of_accepted haccepted, hflushes]
    exact ⟨rfl, rfl⟩

theorem interruptions_invisible_flush :
    let c : StreamConsole :=
      { reads := [.interrupted, .byte 0x41], writes := [.interrupted, .accepted],
        flushes := [.interrupted] }
    c.verdict = .accepted ∧ (c.writeByte 0x42).1 = .error (.write "interrupted") ∧
      (Console.replies [.write 0x42, .read] c.uninterrupted).2.output = #[0x42] := by
  intro c
  obtain ⟨huses, -, -, -, hflush⟩ := interruptions_invisible c
  have haccepted : c.verdict = .accepted := by decide
  refine ⟨haccepted, (hflush 0x42 [] rfl haccepted).1, ?_⟩
  rw [(huses [.write 0x42, .read]).2]
  rfl

end StreamConsole

end WordMachine
