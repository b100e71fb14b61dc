import BreakRules.Proofs.Compile
import BreakRules.Proofs.Endings

/-!
# What a run may change

A run of the program that fails leaves every file as it was, and one that
succeeds changes at most the path that it was asked to write, which then leads
to the whole text that was to be written. `Run.Confined` says this command by
command, `Run.confined_of` shows it of one run, and `runs_confined` of every
run in a sequence in which each starts from the tree that the one before left.
So a location that no run of a sequence writes is as it was at the start.
-/

namespace BreakRules

theorem Outcome.exitCode_report_eq_zero_iff {o : Outcome} {level : Level} {console : Console} :
    (o.report level console).exitCode = 0 ↔ o.failure = none := by
  cases hfailure : o.failure <;> simp [report, hfailure]

namespace Command

def word : Command → String
  | compile _ => "compile"
  | check _ => "check"
  | template _ => "generate-config"

def output? : Command → Option String
  | compile a => a.output
  | check _ => none
  | template a => some a.output

theorem head?_of_read {words : List String} {command : Command}
    (h : read words = .ok command) : words.head? = some command.word := by
  unfold read at h
  split at h
  · cases h
  · obtain ⟨g, -, h⟩ := bind_eq_ok_iff.mp h
    cases h
    rfl
  · obtain ⟨g, -, h⟩ := bind_eq_ok_iff.mp h
    cases h
    rfl
  · obtain ⟨g, -, h⟩ := bind_eq_ok_iff.mp h
    cases h
    rfl
  · cases h
  · cases h
  · cases h
  · cases h

end Command

namespace CompileRequest

/-- The text that is asked for: the header under the names of the request, or the JSON
text in the layout of the settings. -/
inductive Renders (a : CompileRequest) (s : OutputSettings) (M : Machine) : String → Prop where
  | header : a.format.getD s.format = .header → Renders a s M (M.header (a.headerNames s))
  | indented : a.format.getD s.format = .json → s.prettyJson = true →
      Renders a s M (M.json .indented)
  | compact : a.format.getD s.format = .json → s.prettyJson = false →
      Renders a s M (M.json .compact)

theorem renders_render (a : CompileRequest) (s : OutputSettings) (M : Machine) :
    a.Renders s M (a.render s M) := by
  unfold render
  split
  · next hformat => exact .header hformat
  · next hformat =>
      cases hpretty : s.prettyJson with
      | true => exact .indented hformat hpretty
      | false => exact .compact hformat hpretty

end CompileRequest

namespace CompileRequest.Ends

variable {a : CompileRequest} {t : Tree} {ending : Outcome × Tree} (h : a.Ends t ending)
include h

theorem unchanged_of_failure (hfailure : ending.1.failure ≠ none) : ending.2 = t := by
  cases h with
  | unconfigured | notCompiled | printed | notReplaced => rfl
  | replaced => exact absurd rfl hfailure

theorem stdout_of_failure (hfailure : ending.1.failure ≠ none) : ending.1.stdout = "" := by
  cases h with
  | unconfigured | notCompiled | notReplaced => rfl
  | printed | replaced => exact absurd rfl hfailure

theorem unchanged_of_print (houtput : a.output = none) : ending.2 = t := by
  cases h with
  | unconfigured | notCompiled | printed | notReplaced => rfl
  | replaced hcompiled houtput' =>
      rw [houtput] at houtput'
      cases houtput'

theorem written {output : String} (houtput : a.output = some output)
    (hfailure : ending.1.failure = none) :
    ending.1.stdout = "" ∧
      ∃ settings source c, t.Configures a.config settings ∧ t.readText a.input = .ok source ∧
        compile source (chosenOptions settings a.denyWarnings) = .ok c ∧
        a.Renders settings.output c.machine (a.render settings.output c.machine) ∧
        t.Written output (a.render settings.output c.machine) ending.2 := by
  cases h with
  | unconfigured | notCompiled | notReplaced => cases hfailure
  | printed hcompiled houtput' =>
      rw [houtput] at houtput'
      cases houtput'
  | replaced hcompiled houtput' hreplace =>
      rw [houtput] at houtput'
      cases houtput'
      obtain ⟨source, hread, hcompile⟩ := compiledFile_eq_ok_iff.mp hcompiled.compiles
      obtain ⟨location, hadmits, rfl⟩ := Tree.exists_admits_of_replace hreplace
      exact ⟨rfl, _, source, _, hcompiled.configures, hread, hcompile, a.renders_render _ _,
        hadmits.written _⟩

end CompileRequest.Ends

theorem CheckRequest.Ends.unchanged {a : CheckRequest} {t : Tree} {ending : Outcome × Tree}
    (h : a.Ends t ending) : ending.2 = t := by
  cases h with
  | unconfigured | unresolved | checked => rfl

namespace TemplateRequest.Ends

variable {a : TemplateRequest} {t : Tree} {ending : Outcome × Tree} (h : a.Ends t ending)
include h

theorem unchanged_of_failure (hfailure : ending.1.failure ≠ none) : ending.2 = t := by
  cases h with
  | present | notWritten => rfl
  | written => exact absurd rfl hfailure

theorem written_of_success (hfailure : ending.1.failure = none) :
    t.Written a.output Settings.template ending.2 ∧
      ∀ location, t.LeadsTo a.output location → (t.node? location).isSome → a.force = true := by
  cases h with
  | present | notWritten => cases hfailure
  | written hallowed hwrite =>
      obtain ⟨location, hadmits, rfl⟩ := Tree.exists_admits_of_overwrite hwrite
      refine ⟨hadmits.written _, fun location' hleads hpresent => hallowed ?_⟩
      obtain rfl := hleads.unique hadmits.leadsTo
      rw [hadmits.isSome_kind?]
      exact hpresent

end TemplateRequest.Ends

/-- A run of the program: its words, and the tree before and after it. -/
structure Run where
  words : List String
  before : Tree
  report : Report
  after : Tree

namespace Run

/-- The run with words on a tree, whose events go to a console. -/
def of (console : Console) (words : List String) (t : Tree) : Run where
  words := words
  before := t
  report := answer (runProgram words console) t
  after := ((runProgram words console : StateM Tree Report).run t).2

/-- A run succeeds, and the path that it was asked to write leads to a location. -/
def Writes (r : Run) (location : Location) : Prop :=
  r.report.exitCode = 0 ∧
    ∃ command path, Command.read r.words = .ok command ∧ command.output? = some path ∧
      r.before.LeadsTo path location

/-- A run changes nothing but what it was asked to write, and this only if it succeeds. -/
structure Confined (r : Run) : Prop where
  /-- A run that fails changes nothing. -/
  unchanged_of_failure : r.report.exitCode ≠ 0 → r.after = r.before
  /-- Words that give no command change nothing. -/
  unchanged_of_usage : ∀ e, Command.read r.words = .error e → r.after = r.before
  /-- Compiling prints nothing when it fails. -/
  stdout_of_failure :
    r.words.head? = some "compile" → r.report.exitCode ≠ 0 → r.report.stdout = ""
  /-- Checking changes nothing, whatever comes of it. -/
  unchanged_of_check : r.words.head? = some "check" → r.after = r.before
  /-- Compiling without an output changes nothing. -/
  unchanged_of_print : ∀ a,
    Command.read r.words = .ok (.compile a) → a.output = none → r.after = r.before
  /-- Compiling to an output writes the text that is asked for, for the machine that
  compiling the input gives, with the text that the input had before, and prints nothing. -/
  written_of_compile : ∀ a output,
    Command.read r.words = .ok (.compile a) → a.output = some output → r.report.exitCode = 0 →
      r.report.stdout = "" ∧
      ∃ settings source c, r.before.Configures a.config settings ∧
        r.before.readText a.input = .ok source ∧
        compile source (chosenOptions settings a.denyWarnings) = .ok c ∧
        a.Renders settings.output c.machine (a.render settings.output c.machine) ∧
        r.before.Written output (a.render settings.output c.machine) r.after
  /-- The template is written to its output, and over what is there only by force. -/
  written_of_template : ∀ a,
    Command.read r.words = .ok (.template a) → r.report.exitCode = 0 →
      r.before.Written a.output Settings.template r.after ∧
      ∀ location, r.before.LeadsTo a.output location → (r.before.node? location).isSome →
        a.force = true

end Run

/-- The runs of several lines of words, each on the tree that the one before left. -/
def runs (console : Console) : Tree → List (List String) → List Run
  | _, [] => []
  | t, words :: lines =>
      .of console words t :: runs console (Run.of console words t).after lines

def treeAfter (console : Console) (t : Tree) (lines : List (List String)) : Tree :=
  lines.foldl (fun t words => (Run.of console words t).after) t

namespace Run

section Commands

variable {console : Console} {words : List String} {t : Tree}

/-- A run that carries out a command reports its outcome and leaves its tree. -/
theorem of_eq {x : StateM Tree Outcome} {level : Level}
    (h : runProgram words console = do return (← x).report level console) :
    of console words t = ⟨words, t, (x.run t).1.report level console, (x.run t).2⟩ := by
  rw [of, h]
  rfl

theorem confined_of_usage {e : UsageError} (hread : Command.read words = .error e) :
    (of console words t).Confined := by
  have hof : of console words t = ⟨words, t, e.report, t⟩ := by
    rw [of, runProgram, hread]
    rfl
  rw [hof]
  refine ⟨fun _ => rfl, fun _ _ => rfl, fun _ hexit => ?_, fun _ => rfl, fun _ _ _ => rfl,
    fun a _ h => ?_, fun a h => ?_⟩
  · dsimp only [UsageError.report] at hexit ⊢
    split at hexit
    · exact absurd rfl hexit
    · next hhelp => rw [if_neg hhelp]
  · cases hread.symm.trans h
  · cases hread.symm.trans h

theorem confined_of_compile {a : CompileRequest} (hread : Command.read words = .ok (.compile a)) :
    (of console words t).Confined := by
  have hends := a.ends t
  have hhead := Command.head?_of_read hread
  have hrun : (runProgram words console : StateM Tree Report) =
      (Command.compile a).run console := by
    rw [runProgram, hread]
  rw [of_eq hrun]
  constructor
  case unchanged_of_failure =>
    intro hexit
    exact hends.unchanged_of_failure (mt Outcome.exitCode_report_eq_zero_iff.mpr hexit)
  case unchanged_of_usage =>
    intro e h
    cases hread.symm.trans h
  case stdout_of_failure =>
    intro _ hexit
    exact hends.stdout_of_failure (mt Outcome.exitCode_report_eq_zero_iff.mpr hexit)
  case unchanged_of_check =>
    intro h
    exact absurd (hhead.symm.trans h) (by simp [Command.word])
  case unchanged_of_print =>
    intro b h houtput
    cases hread.symm.trans h
    exact hends.unchanged_of_print houtput
  case written_of_compile =>
    intro b output h houtput hexit
    cases hread.symm.trans h
    exact hends.written houtput (Outcome.exitCode_report_eq_zero_iff.mp hexit)
  case written_of_template =>
    intro b h
    cases hread.symm.trans h

theorem confined_of_check {a : CheckRequest} (hread : Command.read words = .ok (.check a)) :
    (of console words t).Confined := by
  have hafter := (a.ends t).unchanged
  have hhead := Command.head?_of_read hread
  have hrun : (runProgram words console : StateM Tree Report) =
      (Command.check a).run console := by
    rw [runProgram, hread]
  rw [of_eq hrun]
  refine ⟨fun _ => hafter, fun _ _ => hafter, fun h => ?_, fun _ => hafter, fun _ _ _ => hafter,
    fun b _ h => ?_, fun b h => ?_⟩
  · exact absurd (hhead.symm.trans h) (by simp [Command.word])
  · cases hread.symm.trans h
  · cases hread.symm.trans h

theorem confined_of_template {a : TemplateRequest}
    (hread : Command.read words = .ok (.template a)) : (of console words t).Confined := by
  have hends := a.ends t
  have hhead := Command.head?_of_read hread
  have hrun : (runProgram words console : StateM Tree Report) =
      (Command.template a).run console := by
    rw [runProgram, hread]
  rw [of_eq hrun]
  constructor
  case unchanged_of_failure =>
    intro hexit
    exact hends.unchanged_of_failure (mt Outcome.exitCode_report_eq_zero_iff.mpr hexit)
  case unchanged_of_usage =>
    intro e h
    cases hread.symm.trans h
  case stdout_of_failure =>
    intro h
    exact absurd (hhead.symm.trans h) (by simp [Command.word])
  case unchanged_of_check =>
    intro h
    exact absurd (hhead.symm.trans h) (by simp [Command.word])
  case unchanged_of_print =>
    intro b h
    cases hread.symm.trans h
  case written_of_compile =>
    intro b output h
    cases hread.symm.trans h
  case written_of_template =>
    intro b h hexit
    cases hread.symm.trans h
    exact hends.written_of_success (Outcome.exitCode_report_eq_zero_iff.mp hexit)

end Commands

theorem confined_of (console : Console) (words : List String) (t : Tree) :
    (of console words t).Confined := by
  cases hread : Command.read words with
  | error e => exact confined_of_usage hread
  | ok command =>
      cases command with
      | compile a => exact confined_of_compile hread
      | check a => exact confined_of_check hread
      | template a => exact confined_of_template hread

/-- A run changes only the locations that it writes. -/
theorem Confined.node?_eq {r : Run} (h : r.Confined) {location : Location}
    (hwrites : ¬ r.Writes location) : r.after.node? location = r.before.node? location := by
  by_cases hexit : r.report.exitCode = 0
  · cases hread : Command.read r.words with
    | error e => rw [h.unchanged_of_usage e hread]
    | ok command =>
        have hleads : ∀ path, command.output? = some path → ¬ r.before.LeadsTo path location :=
          fun path hpath hleads => hwrites ⟨hexit, command, path, hread, hpath, hleads⟩
        cases command with
        | compile a =>
            cases houtput : a.output with
            | none => rw [h.unchanged_of_print a hread houtput]
            | some output =>
                obtain ⟨-, settings, source, c, -, -, -, -, hwritten⟩ :=
                  h.written_of_compile a output hread houtput hexit
                exact hwritten.agreesOff.node?_eq location (hleads output houtput)
        | check a => rw [h.unchanged_of_check (Command.head?_of_read hread)]
        | template a =>
            obtain ⟨hwritten, -⟩ := h.written_of_template a hread hexit
            exact hwritten.agreesOff.node?_eq location (hleads a.output rfl)
  · rw [h.unchanged_of_failure hexit]

end Run

theorem confined_of_mem_runs {console : Console} {t : Tree} {lines : List (List String)} {r : Run}
    (h : r ∈ runs console t lines) : r.Confined := by
  induction lines generalizing t with
  | nil => cases h
  | cons words lines ih =>
      rcases List.mem_cons.mp h with rfl | h
      · exact Run.confined_of console words t
      · exact ih h

/-- What no run writes is as it was at the start. -/
theorem node?_treeAfter {console : Console} {t : Tree} {lines : List (List String)}
    {location : Location} (h : ∀ r ∈ runs console t lines, ¬ r.Writes location) :
    (treeAfter console t lines).node? location = t.node? location := by
  induction lines generalizing t with
  | nil => rfl
  | cons words lines ih =>
      obtain ⟨hfirst, hrest⟩ := List.forall_mem_cons.mp h
      calc (treeAfter console t (words :: lines)).node? location
          = (treeAfter console (Run.of console words t).after lines).node? location := rfl
        _ = (Run.of console words t).after.node? location := ih hrest
        _ = t.node? location := (Run.confined_of console words t).node?_eq hfirst

/-- A run changes at most its own output, and nothing when it fails. This holds of every
run in a sequence, and a location that none of them writes keeps what it holds. -/
theorem runs_confined (console : Console) (t : Tree) (lines : List (List String)) :
    (∀ r ∈ runs console t lines, r.Confined) ∧
      ∀ location, (∀ r ∈ runs console t lines, ¬ r.Writes location) →
        (treeAfter console t lines).node? location = t.node? location :=
  ⟨fun _ => confined_of_mem_runs, fun _ => node?_treeAfter⟩

/-- A tree with a rule file in its working directory. -/
def sampleTree : Tree := ⟨[(["a.rules"], .file sampleText.toUTF8)], []⟩

theorem readText_sampleTree : sampleTree.readText "a.rules" = .ok sampleText :=
  Tree.readText_of_lookup rfl

/-- Words that compile the file to one beside it. -/
def sampleWords : List String := ["compile", "a.rules", "out.h"]

theorem read_sampleWords : Command.read sampleWords =
    .ok (.compile { input := "a.rules", output := some "out.h" }) := rfl

theorem leadsTo_sampleTree : sampleTree.LeadsTo "out.h" ["out.h"] := rfl

theorem exitCode_sampleWords (console : Console) :
    (Run.of console sampleWords sampleTree).report.exitCode = 0 := by
  obtain ⟨c, hcompile, -⟩ := compile_sampleText
  let a : CompileRequest := { input := "a.rules", output := some "out.h" }
  have hends := a.ends sampleTree
  have hrun : (runProgram sampleWords console : StateM Tree Report) =
      (Command.compile a).run console := by
    rw [runProgram, read_sampleWords]
  rw [Run.of_eq hrun, Outcome.exitCode_report_eq_zero_iff]
  generalize (a.run : StateM Tree Outcome).run sampleTree = ending at hends
  cases hends with
  | printed | replaced => rfl
  | unconfigured hload => cases hload
  | notCompiled hload hfile =>
      cases hload
      rw [readText_sampleTree] at hfile
      have hok : compiledFile (chosenOptions {} a.denyWarnings) a.input (.ok sampleText) = .ok c :=
        compiledFile_eq_ok_iff.mpr ⟨sampleText, rfl, hcompile⟩
      cases hok.symm.trans hfile
  | notReplaced hcompiled houtput hreplace =>
      cases houtput
      cases hreplace

theorem runs_confined_sampleTree :
    (Run.of .plain sampleWords sampleTree ∈ runs .plain sampleTree [sampleWords] ∧
      (Run.of .plain sampleWords sampleTree).report.exitCode = 0 ∧
      (Run.of .plain sampleWords sampleTree).Confined) ∧
    (∀ r ∈ runs .plain sampleTree [sampleWords], ¬ r.Writes ["a.rules"]) ∧
      (treeAfter .plain sampleTree [sampleWords]).node? ["a.rules"] =
        sampleTree.node? ["a.rules"] := by
  have hmem : Run.of .plain sampleWords sampleTree ∈ runs .plain sampleTree [sampleWords] :=
    List.mem_singleton_self _
  have hwrites : ∀ r ∈ runs .plain sampleTree [sampleWords], ¬ r.Writes ["a.rules"] := by
    intro r hr
    rw [List.mem_singleton.mp hr]
    rintro ⟨-, command, path, hread, hpath, hleads⟩
    cases read_sampleWords.symm.trans hread
    cases hpath
    exact absurd (hleads.unique leadsTo_sampleTree) (by decide)
  obtain ⟨hconfined, hframe⟩ := runs_confined .plain sampleTree [sampleWords]
  exact ⟨⟨hmem, exitCode_sampleWords .plain, hconfined _ hmem⟩, hwrites, hframe _ hwrites⟩

end BreakRules
