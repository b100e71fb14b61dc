import BreakRules.Proofs.Agreement

/-!
# What the amount of detail may change

Two lines of words that give the same command, but for the flags that ask for
less or more detail, end with the same exit code, print the same and leave the
same tree behind: `detail_shows_on_stderr_only`. What they tell on the stream
for errors may differ, and so may the consoles that they tell it on.

The flags are read in several places. They set the level up to which events are
shown. Compiling repeats them with its other arguments, and being quiet holds
back its notice about a file that was written. Checking has no progress bar when
it is quiet. All of this is in the events and the notice of an outcome, and
neither the exit code nor what is printed is made from these. The records that
are noted do not depend on the flags at all. So the outcomes of two such commands
are the same up to arguments, bar and notice, and this on every disk:
`Command.silent_outcome_muted`.
-/

namespace BreakRules

/-! ### Outcomes without what the flags change -/

namespace Outcome

/-- An outcome of which only the records are told: neither the arguments nor the bar, and
no notice. -/
def silent (o : Outcome) : Outcome :=
  { o with events := o.journal.map .noted, notice := "" }

@[simp] theorem silent_mk (events : List Event) (stdout notice : String)
    (failure : Option Failure) :
    silent ⟨events, stdout, notice, failure⟩ =
      ⟨(Event.records events).map .noted, stdout, "", failure⟩ := rfl

variable {o o' : Outcome} (h : o.silent = o'.silent) (level level' : Level)
  (console console' : Console)
include h

theorem exitCode_report_eq :
    (o.report level console).exitCode = (o'.report level' console').exitCode := by
  have hfailure : o.failure = o'.failure := (Outcome.mk.inj h).2.2.2
  simp only [report, hfailure]

theorem stdout_report_eq :
    (o.report level console).stdout = (o'.report level' console').stdout :=
  (Outcome.mk.inj h).2.1

end Outcome

/-! ### Commands without their flags for detail -/

def CompileRequest.muted (a : CompileRequest) : CompileRequest :=
  { a with quiet := false, verbose := 0 }

def CheckRequest.muted (a : CheckRequest) : CheckRequest :=
  { a with quiet := false, verbose := 0 }

namespace Command

/-- A command with neither of the flags for the amount of detail. -/
def muted : Command → Command
  | compile a => compile a.muted
  | check a => check a.muted
  | template a => template a

def shown : Command → Level
  | compile a => shownLevel a.quiet a.verbose
  | check a => shownLevel a.quiet a.verbose
  | template _ => .error

/-- What a command does, before it is decided how much of it is shown. -/
def outcome {m : Type → Type} [Monad m] [Disk m] : Command → m Outcome
  | compile a => a.run
  | check a => a.run
  | template a => a.run

end Command

section Disks

variable {m : Type → Type} [Monad m] [Disk m]

theorem Command.run_eq (c : Command) (console : Console) :
    (c.run console : m Report) = do return (← c.outcome).report c.shown console := by
  cases c <;> rfl

variable [LawfulMonad m]

/-- Compiling comes to the same with and without the flags, up to the arguments that are
repeated and the notice. -/
theorem CompileRequest.silent_run_muted (a : CompileRequest) :
    Outcome.silent <$> (a.muted.run : m Outcome) = Outcome.silent <$> a.run := by
  rw [run, run, map_bind, map_bind]
  refine bind_congr fun loading => ?_
  obtain ⟨notes, f | settings⟩ := loading
  · simp
  dsimp only
  rw [map_bind, map_bind]
  refine bind_congr fun compiling => ?_
  obtain ⟨more, f | c⟩ := compiling
  · simp
  have houtput : a.muted.output = a.output := rfl
  have hrender : a.muted.render settings.output c.machine = a.render settings.output c.machine :=
    rfl
  dsimp only
  rw [houtput, hrender]
  cases a.output with
  | none => simp
  | some output =>
      dsimp only
      rw [map_bind, map_bind]
      -- both write the same text, and the notice is made only after that
      refine bind_congr fun replaced => ?_
      cases replaced with
      | error f => simp
      | ok written => simp

/-- Checking comes to the same with and without the flags, up to the bar. -/
theorem CheckRequest.silent_run_muted (a : CheckRequest) :
    Outcome.silent <$> (a.muted.run : m Outcome) = Outcome.silent <$> a.run := by
  rw [run, run, map_bind, map_bind]
  refine bind_congr fun loading => ?_
  obtain ⟨notes, f | settings⟩ := loading
  · rfl
  dsimp only
  rw [map_bind, map_bind]
  refine bind_congr fun resolving => ?_
  cases resolving with
  | error e => rfl
  | ok paths =>
      dsimp only
      rw [map_bind, map_bind]
      -- the files are compiled in the same way, whether a bar moves in between or not
      refine bind_congr fun results => ?_
      simp

/-- A command comes to the same with and without the flags, up to arguments, bar and
notice. -/
theorem Command.silent_outcome_muted (c : Command) :
    Outcome.silent <$> (c.muted.outcome : m Outcome) = Outcome.silent <$> c.outcome := by
  cases c with
  | compile a => exact a.silent_run_muted
  | check a => exact a.silent_run_muted
  | template a => rfl

end Disks

/-! ### Runs of the program -/

namespace Run

/-- Two runs that cannot be told apart without the stream for errors. -/
structure SameButStderr (r r' : Run) : Prop where
  exitCode_eq : r.report.exitCode = r'.report.exitCode
  stdout_eq : r.report.stdout = r'.report.stdout
  after_eq : r.after = r'.after

/-- A run reports what comes of its command and leaves the tree that the command leaves. -/
theorem of_read {words : List String} {c : Command} (hread : Command.read words = .ok c)
    (console : Console) (t : Tree) :
    of console words t =
      ⟨words, t, ((c.outcome : StateM Tree Outcome).run t).1.report c.shown console,
        ((c.outcome : StateM Tree Outcome).run t).2⟩ := by
  apply of_eq
  rw [runProgram, hread]
  exact c.run_eq console

end Run

/-- The amount of detail that is asked for shows on the stream for errors only, whatever
the consoles make of it. -/
theorem detail_shows_on_stderr_only {words words' : List String} {c c' : Command}
    (hread : Command.read words = .ok c) (hread' : Command.read words' = .ok c')
    (hmuted : c.muted = c'.muted) (console console' : Console) (t : Tree) :
    (Run.of console words t).SameButStderr (Run.of console' words' t) := by
  have hsilent : Outcome.silent <$> (c.outcome : StateM Tree Outcome) =
      Outcome.silent <$> c'.outcome := by
    rw [← c.silent_outcome_muted, hmuted, c'.silent_outcome_muted]
  have hrun : (((c.outcome : StateM Tree Outcome).run t).1.silent,
        ((c.outcome : StateM Tree Outcome).run t).2) =
      (((c'.outcome : StateM Tree Outcome).run t).1.silent,
        ((c'.outcome : StateM Tree Outcome).run t).2) :=
    congrArg (fun x : StateM Tree Outcome => x.run t) hsilent
  obtain ⟨houtcome, hafter⟩ := Prod.mk.inj hrun
  rw [Run.of_read hread, Run.of_read hread']
  constructor
  case exitCode_eq => exact Outcome.exitCode_report_eq houtcome _ _ _ _
  case stdout_eq => exact Outcome.stdout_report_eq houtcome _ _ _ _
  case after_eq => exact hafter

/-- A console that shows the messages of a bar, one below the other. -/
def barMessages : Console where
  draw events := "".intercalate (events.map fun
    | .bar (.setMessage text) => text ++ "\n"
    | _ => "")

theorem detail_shows_on_stderr_only_pairTree :
    (Command.read ["compile", "-q", "a.rules", "-vv", "out.h"] =
        .ok (.compile
          { input := "a.rules", output := some "out.h", quiet := true, verbose := 2 }) ∧
      (Run.of .plain sampleWords sampleTree).report.exitCode = 0 ∧
      (Run.of .plain sampleWords sampleTree).SameButStderr
        (Run.of .plain ["compile", "-q", "a.rules", "-vv", "out.h"] sampleTree)) ∧
    (Command.read ["check", "a.rules", "b.rules", "-q"] =
        .ok (.check { patterns := ["a.rules", "b.rules"], quiet := true }) ∧
      answer (Glob.resolve ["a.rules", "b.rules"]) pairTree = .ok ["a.rules", "b.rules"] ∧
      barMessages.draw (CheckRequest.fileEvents { patterns := ["a.rules", "b.rules"] }
        ["a.rules", "b.rules"] [[], []]) = "Checked: a.rules\nChecked: b.rules\n" ∧
      barMessages.draw (CheckRequest.fileEvents
        { patterns := ["a.rules", "b.rules"], quiet := true }
        ["a.rules", "b.rules"] [[], []]) = "" ∧
      (Run.of barMessages ["check", "a.rules", "b.rules"] pairTree).SameButStderr
        (Run.of barMessages ["check", "a.rules", "b.rules", "-q"] pairTree)) := by
  have hcompile : Command.read ["compile", "-q", "a.rules", "-vv", "out.h"] =
      .ok (.compile
        { input := "a.rules", output := some "out.h", quiet := true, verbose := 2 }) := rfl
  have hcheck : Command.read ["check", "a.rules", "b.rules"] =
      .ok (.check { patterns := ["a.rules", "b.rules"] }) := rfl
  have hquiet : Command.read ["check", "a.rules", "b.rules", "-q"] =
      .ok (.check { patterns := ["a.rules", "b.rules"], quiet := true }) := rfl
  exact ⟨⟨hcompile, exitCode_sampleWords .plain,
      detail_shows_on_stderr_only read_sampleWords hcompile rfl .plain .plain sampleTree⟩,
    hquiet, resolve_pairTree, by decide +kernel, by decide +kernel,
    detail_shows_on_stderr_only hcheck hquiet rfl barMessages barMessages pairTree⟩

end BreakRules
