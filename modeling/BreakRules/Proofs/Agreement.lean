import BreakRules.Proofs.Effects

/-!
# Checking and compiling agree

Checking prints an entry for every file. The entry is a function of the options
and of what reading the file gives, and it describes what the compile command
does with the same file under the same settings (`CheckEntry.Describes`): it is
an `ok` with the sizes of the machine exactly if compiling succeeds, and else a
`FAIL` with the causes that compiling prints.

That the number of warnings in an entry is the number of warnings that compiling
shows rests on the compiler noting nothing at the level of warnings:
`level_ne_warn_of_mem_journal`.
-/

namespace BreakRules

/-! ### Warnings in the journal -/

theorem Visit.level_ne_warn_of_mem_records {v : Visit} {r : Record} (h : r ∈ v.records) :
    r.level ≠ .warn := by
  rcases List.mem_append.mp h with hrow | hend
  · obtain ⟨row, -, rfl⟩ := List.mem_map.mp hrow
    exact nofun
  · split at hend
    · cases hend
    · rw [List.mem_singleton.mp hend]
      exact nofun

theorem RuleSet.level_ne_warn_of_mem_compileNoted {R : RuleSet} {options : Options} {r : Record}
    (h : r ∈ (R.compileNoted options).1) : r.level ≠ .warn := by
  have hexplored : r ∈ R.record :: (R.explore R.startLabel).records → r.level ≠ .warn := by
    intro hr
    rcases List.mem_cons.mp hr with rfl | hr
    · exact nofun
    · exact Visit.level_ne_warn_of_mem_records hr
  unfold compileNoted at h
  split at h
  · cases h
  · split at h
    · rw [List.mem_singleton.mp h]
      exact nofun
    · dsimp only at h
      split at h
      · exact hexplored h
      · split at h
        · exact hexplored h
        · rcases List.mem_append.mp h with h | h
          · exact hexplored h
          · rw [List.mem_singleton.mp h]
            exact nofun

/-- The compiler notes no warnings: its findings are left to the commands. -/
theorem level_ne_warn_of_mem_journal {source : String} {options : Options} {r : Record}
    (h : r ∈ journal source options) : r.level ≠ .warn := by
  have hnotes : ∀ draft : Draft, r ∈ draft.notes → r.level ≠ .warn := by
    intro draft hr
    obtain ⟨replaced, -, rfl⟩ := List.mem_map.mp hr
    exact nofun
  unfold journal compileNoted at h
  dsimp only at h
  split at h
  · exact hnotes _ h
  · rcases List.mem_append.mp h with h | h
    · exact hnotes _ h
    · rcases List.mem_cons.mp h with rfl | h
      · exact nofun
      · exact RuleSet.level_ne_warn_of_mem_compileNoted h

theorem level_ne_warn_of_mem_loadSettings {config : Option String} {t : Tree} {r : Record}
    (h : r ∈ (answer (loadSettings config) t).1) : r.level ≠ .warn := by
  cases config with
  | none => cases h
  | some path =>
      rw [loadSettings, (readsOnly_readText path).answer_bind, answer_readText] at h
      split at h
      · cases h
      · split at h
        · cases h
        · simp [List.mem_singleton.mp h]

def warnings (records : List Record) : List Record :=
  records.filter (·.level = .warn)

theorem warnings_append (records records' : List Record) :
    warnings (records ++ records') = warnings records ++ warnings records' :=
  List.filter_append ..

theorem warnings_eq_nil {records : List Record} (h : ∀ r ∈ records, r.level ≠ .warn) :
    warnings records = [] := by
  rw [warnings, List.filter_eq_nil_iff]
  simpa using h

theorem warnings_findingRecords (part : Part) (path : String) (findings : List Finding) :
    warnings (findingRecords part path findings) = findingRecords part path findings := by
  rw [warnings, List.filter_eq_self]
  intro r hr
  obtain ⟨f, -, rfl⟩ := List.mem_map.mp hr
  rfl

/-- Whoever is not quiet shows all warnings. -/
theorem warnings_shown (records : List Record) (verbose : Nat) :
    warnings (records.filter (·.level.rank ≤ (shownLevel false verbose).rank)) =
      warnings records := by
  have hlevel : Level.warn.rank ≤ (shownLevel false verbose).rank := by
    unfold shownLevel
    split
    · contradiction
    · split <;> decide
  rw [warnings, warnings, List.filter_filter]
  refine List.filter_congr fun r _ => ?_
  by_cases hwarn : r.level = .warn
  · simp [hwarn, hlevel]
  · simp [hwarn]

theorem CompileRequest.Compiled.warnings_records {a : CompileRequest} {t : Tree}
    {events : List Event} {settings : Settings} {c : Compilation}
    (h : a.Compiled t events settings c) :
    warnings (Event.records events) = findingRecords .compileCommand a.input c.findings := by
  obtain ⟨source, hread, hcompile⟩ := compiledFile_eq_ok_iff.mp h.compiles
  have hsettings : warnings (answer (loadSettings a.config) t).1 = [] :=
    warnings_eq_nil fun r => level_ne_warn_of_mem_loadSettings
  have hjournal : warnings (journal source (chosenOptions settings a.denyWarnings)) = [] :=
    warnings_eq_nil fun r => level_ne_warn_of_mem_journal
  rw [h.events_eq, records_events, answer_compileFile_fst hread hcompile, warnings_append,
    warnings_append, hsettings, hjournal, warnings_findingRecords]
  rfl

/-! ### Reports -/

namespace Outcome

/-- The records of an outcome that a report shows where no filter is set. -/
def shown (o : Outcome) (level : Level) : List Record :=
  o.journal.filter (·.level.rank ≤ level.rank)

theorem draw_plain (o : Outcome) (level : Level) :
    Console.plain.draw (o.events.filter (Console.plain.shows level)) =
      "".intercalate ((o.shown level).map (·.text)) := by
  have hrecords : Event.records (o.events.filter (Console.plain.shows level)) = o.shown level := by
    rw [shown, journal, Event.records, Event.records, List.filterMap_filter, List.filter_filterMap]
    refine List.filterMap_congr fun e _ => ?_
    cases e with
    | noted r => rfl
    | arguments a => simp [Event.record?]
    | bar call => rfl
  rw [← hrecords]
  rfl

theorem report_of_failure {o : Outcome} {f : Failure} (hnotice : o.notice = "")
    (hfailure : o.failure = some f) (level : Level) :
    o.report level .plain = ⟨1, o.stdout, "".intercalate ((o.shown level).map (·.text)) ++
      ("Error: " ++ f.message ++ "\n")⟩ := by
  simp [report, draw_plain, hnotice, hfailure]

theorem report_of_success {o : Outcome} (hnotice : o.notice = "") (hfailure : o.failure = none)
    (level : Level) :
    o.report level .plain = ⟨0, o.stdout, "".intercalate ((o.shown level).map (·.text))⟩ := by
  simp [report, draw_plain, hnotice, hfailure]

end Outcome

/-! ### Entries -/

inductive CheckEntry where
  /-- The numbers of states of the machine, of states before merging and of warnings. -/
  | ok (states raw warnings : Nat)
  /-- The message of the failure and the messages of its causes. -/
  | fail (causes : List String)

namespace CheckEntry

def text (path : String) : CheckEntry → String
  | ok states raw warnings =>
      "ok    " ++ path ++ ": " ++ toString states ++ " states (" ++ toString raw ++
        " before merging), " ++ toString warnings ++ " warnings\n"
  | fail causes => "FAIL  " ++ path ++ ": " ++ ": ".intercalate causes ++ "\n"

def isFail : CheckEntry → Bool
  | ok .. => false
  | fail _ => true

def of : Except Failure Compilation → CheckEntry
  | .ok c => ok c.machine.states.length c.rawStates c.findings.length
  | .error f => fail f.chain

theorem text_of (path : String) (result : Except Failure Compilation) :
    (of result).text path = checkLine path result := by
  cases result with
  | ok c => rfl
  | error f => rfl

theorem isFail_of (result : Except Failure Compilation) :
    (of result).isFail = !result.isOk := by
  cases result with
  | ok c => rfl
  | error f => rfl

/-- The entry for a file, by what reading it gives. -/
def ofFile (options : Options) (path : String) (read : Except ReadFault String) : CheckEntry :=
  of (compiledFile options path read)

/-- An entry says of a compile command whether it succeeds, with which sizes, and with
which causes it fails. -/
structure Describes (e : CheckEntry) (b : CompileRequest) (t : Tree) : Prop where
  exitCode_eq_zero_iff : (answer (Command.compile b).run t).exitCode = 0 ↔ e.isFail = false
  /-- The numbers in the entry are those of the machine that is printed, and of the
  warnings that are shown unless compiling is quiet. -/
  of_ok : ∀ states raw count, e = ok states raw count →
    ∃ settings source c shown, t.Configures b.config settings ∧
      t.readText b.input = .ok source ∧
      compile source (chosenOptions settings b.denyWarnings) = .ok c ∧
      answer (Command.compile b).run t =
        ⟨0, b.render settings.output c.machine, "".intercalate (shown.map (·.text))⟩ ∧
      states = c.machine.states.length ∧ raw = c.rawStates ∧ count = c.findings.length ∧
      (b.quiet = false →
        warnings shown = findingRecords .compileCommand b.input c.findings)
  /-- The causes in the entry are those that are printed. -/
  of_fail : ∀ causes, e = fail causes →
    ∃ shown : List Record, answer (Command.compile b).run t =
      ⟨1, "", "".intercalate (shown.map (·.text)) ++
        ("Error: " ++ ": ".intercalate causes ++ "\n")⟩

end CheckEntry

namespace Tree.Configures

variable {t : Tree} {config : Option String} {settings settings' : Settings}

theorem unique (h : t.Configures config settings) (h' : t.Configures config settings') :
    settings = settings' := by
  rw [← answer_loadSettings_eq_ok_iff] at h h'
  exact Except.ok.inj (h.symm.trans h')

theorem loadSettings_ne_error (h : t.Configures config settings) (f : Failure) :
    (answer (loadSettings config) t).2 ≠ .error f := by
  rw [answer_loadSettings_eq_ok_iff.mpr h]
  exact nofun

end Tree.Configures

/-- An entry describes the compile command with the same file under the same settings. -/
theorem CheckEntry.describes_ofFile {t : Tree} {b : CompileRequest} {settings : Settings}
    (hload : t.Configures b.config settings) (houtput : b.output = none) :
    (ofFile (chosenOptions settings b.denyWarnings) b.input (t.readText b.input)).Describes
      b t := by
  have hends := b.ends t
  have hreport : answer (Command.compile b).run t =
      ((b.run : StateM Tree Outcome).run t).1.report (shownLevel b.quiet b.verbose) .plain :=
    rfl
  generalize (b.run : StateM Tree Outcome).run t = ending at hends hreport
  cases hends with
  | unconfigured hunread => exact absurd hunread (hload.loadSettings_ne_error _)
  | notReplaced _ houtput' | replaced _ houtput' =>
      rw [houtput] at houtput'
      cases houtput'
  | notCompiled hload' hfile =>
      obtain rfl := hload.unique hload'
      rw [Outcome.report_of_failure rfl rfl] at hreport
      rw [ofFile, hfile]
      refine ⟨by simp [hreport, of, isFail], nofun, ?_⟩
      rintro causes ⟨⟩
      exact ⟨_, hreport⟩
  | printed hcompiled =>
      obtain rfl := hload.unique hcompiled.configures
      obtain ⟨source, hread, hcompile⟩ := compiledFile_eq_ok_iff.mp hcompiled.compiles
      rw [Outcome.report_of_success rfl rfl] at hreport
      rw [ofFile, hcompiled.compiles]
      refine ⟨by simp [hreport, of, isFail], ?_, nofun⟩
      rintro states raw count ⟨⟩
      refine ⟨settings, source, _, _, hload, hread, hcompile, hreport, rfl, rfl, rfl, ?_⟩
      intro hquiet
      rw [hquiet, ← hcompiled.warnings_records]
      exact warnings_shown _ _

/-- What checking comes to when there are settings and files. -/
theorem CheckRequest.exists_outcome_eq {a : CheckRequest} {t : Tree} {settings : Settings}
    {paths : List String} (hload : t.Configures a.config settings)
    (hresolve : answer (Glob.resolve a.patterns) t = .ok paths) :
    ∃ events, answer a.run t =
      { events
        stdout := "".intercalate (paths.map fun path => checkLine path (a.result t settings path))
        failure :=
          if a.failed t settings paths = 0 then none
          else some (.checkFailed (a.failed t settings paths) paths.length) } := by
  have hends := a.ends t
  rw [answer]
  generalize (a.run : StateM Tree Outcome).run t = ending at hends
  cases hends with
  | unconfigured hunread => exact absurd hunread (hload.loadSettings_ne_error _)
  | unresolved _ hunresolved => cases hresolve.symm.trans hunresolved
  | checked hload' hresolve' =>
      obtain rfl := hload.unique hload'
      cases hresolve.symm.trans hresolve'
      exact ⟨_, rfl⟩

/-- Checking and compiling agree file by file. Checking prints one entry for each path, in
order. An entry depends on no other file, and it describes what compiling the path with the
same settings does. Checking succeeds exactly if no entry is a failure, and else it tells
how many are. -/
theorem CheckRequest.run_agrees_with_compile (a : CheckRequest) (t : Tree) {settings : Settings}
    {paths : List String} (hload : t.Configures a.config settings)
    (hresolve : answer (Glob.resolve a.patterns) t = .ok paths) :
    ∃ entry : String → CheckEntry,
      (∀ path, entry path =
        .ofFile (chosenOptions settings a.denyWarnings) path (t.readText path)) ∧
      (∀ b : CompileRequest, b.output = none → b.config = a.config →
        b.denyWarnings = a.denyWarnings → (entry b.input).Describes b t) ∧
      (answer (Command.check a).run t).stdout =
        "".intercalate (paths.map fun path => (entry path).text path) ∧
      ((answer (Command.check a).run t).exitCode = 0 ↔
        ∀ path ∈ paths, (entry path).isFail = false) ∧
      ((answer (Command.check a).run t).exitCode ≠ 0 →
        ∃ shown : List Record, (answer (Command.check a).run t).stderr =
          "".intercalate (shown.map (·.text)) ++
            ("Error: " ++
              (toString (paths.countP fun path => (entry path).isFail) ++ " of " ++
                toString paths.length ++ " rule files failed") ++ "\n")) := by
  let entry (path : String) : CheckEntry :=
    .ofFile (chosenOptions settings a.denyWarnings) path (t.readText path)
  have hlines : (paths.map fun path => checkLine path (a.result t settings path)) =
      paths.map fun path => (entry path).text path :=
    List.map_congr_left fun path _ => (CheckEntry.text_of path _).symm
  have hfailed : a.failed t settings paths = paths.countP fun path => (entry path).isFail :=
    List.countP_congr fun path _ => by rw [← CheckEntry.isFail_of]; rfl
  obtain ⟨events, houtcome⟩ := exists_outcome_eq hload hresolve
  rw [hlines, hfailed] at houtcome
  have hreport : answer (Command.check a).run t =
      (answer a.run t).report (shownLevel a.quiet a.verbose) .plain := rfl
  have hexit : (answer (Command.check a).run t).exitCode = 0 ↔
      (paths.countP fun path => (entry path).isFail) = 0 := by
    rw [hreport, Outcome.exitCode_report_eq_zero_iff, houtcome]
    simp
  refine ⟨entry, fun _ => rfl, ?_, ?_, ?_, fun hne => ?_⟩
  · intro b houtput hconfig hdeny
    have hdescribes := CheckEntry.describes_ofFile (hconfig ▸ hload) houtput
    rwa [hdeny] at hdescribes
  · rw [hreport, houtcome]
    rfl
  · rw [hexit, List.countP_eq_zero]
    simp
  · rw [hreport, houtcome, Outcome.report_of_failure rfl (if_neg (mt hexit.mpr hne))]
    exact ⟨_, rfl⟩

/-- A name without wildcards stands for the file of that name. -/
theorem Glob.answer_files_literal {name : String} {t : Tree} (hfile : t.kind? name = some .file)
    (hdots : ¬ (name = "." ∨ name = "..")) :
    answer (Pattern.files ⟨".", [.literal name], false⟩) t = [name] := by
  have hchild : child "." name = name := if_pos rfl
  have hdistinct : distinct [name] = [name] := by simp [distinct, distinctFrom]
  have hdepth : (Disk.depth : StateM Tree Nat).run t = pure (t.depth, t) := rfl
  have hkind : (Disk.kind? name : StateM Tree (Option Kind)).run t = pure (some .file, t) := by
    rw [← hfile]
    rfl
  have hrun : (Pattern.files ⟨".", [.literal name], false⟩ : StateM Tree (List String)).run t =
      pure ([name], t) := by
    simp [Pattern.files, expand, fromEach, literal, isFile, List.filterM, List.filterAuxM,
      hdots, hchild, hdistinct, hdepth, hkind]
  rw [answer, hrun]
  rfl

/-- A tree with a file that compiles and an empty one, which does not. -/
def pairTree : Tree := sampleTree.put ["b.rules"] (.file "".toUTF8)

theorem resolve_pairTree :
    answer (Glob.resolve ["a.rules", "b.rules"]) pairTree = .ok ["a.rules", "b.rules"] := by
  have hpatterns : Glob.readPatterns ["a.rules", "b.rules"] =
      .ok [⟨".", [.literal "a.rules"], false⟩, ⟨".", [.literal "b.rules"], false⟩] := rfl
  have hless : Path.compare "a.rules" "b.rules" = .lt := by decide
  have hsorted : Glob.sortPaths ["a.rules", "b.rules"] = ["a.rules", "b.rules"] := by
    rw [Glob.sortPaths, List.mergeSort_of_pairwise (by simp [hless])]
    simp [Glob.dropRepeated, hless]
  simp only [Glob.resolve, hpatterns]
  rw [(ReadsOnly.mapM Glob.readsOnly_files _).answer_bind,
    ReadsOnly.answer_mapM Glob.readsOnly_files, List.map_cons, List.map_cons, List.map_nil,
    Glob.answer_files_literal rfl (by decide), Glob.answer_files_literal rfl (by decide)]
  simp [hsorted]

theorem CheckRequest.run_agrees_with_compile_pairTree :
    pairTree.Configures none {} ∧
    answer (Glob.resolve ["a.rules", "b.rules"]) pairTree = .ok ["a.rules", "b.rules"] ∧
    ∃ entry : String → CheckEntry,
      (entry "a.rules").isFail = false ∧ (entry "b.rules").isFail = true ∧
      (entry "a.rules").Describes { input := "a.rules" } pairTree ∧
      (entry "b.rules").Describes { input := "b.rules" } pairTree ∧
      (answer (Command.check { patterns := ["a.rules", "b.rules"] }).run pairTree).stdout =
        "".intercalate [(entry "a.rules").text "a.rules", (entry "b.rules").text "b.rules"] ∧
      (answer (Command.check { patterns := ["a.rules", "b.rules"] }).run pairTree).exitCode ≠
        0 := by
  have hload : pairTree.Configures none {} := rfl
  obtain ⟨entry, hentry, hdescribes, hstdout, hexit, -⟩ :=
    run_agrees_with_compile { patterns := ["a.rules", "b.rules"] } pairTree hload resolve_pairTree
  obtain ⟨c, hcompile, -⟩ := compile_sampleText
  have hfirst : pairTree.readText "a.rules" = .ok sampleText := Tree.readText_of_lookup rfl
  have hsecond : pairTree.readText "b.rules" = .ok "" := Tree.readText_of_lookup rfl
  have hok : (entry "a.rules").isFail = false := by
    have hcompiled : compiledFile (chosenOptions {} false) "a.rules" (.ok sampleText) = .ok c :=
      compiledFile_eq_ok_iff.mpr ⟨sampleText, rfl, hcompile⟩
    rw [hentry, hfirst, CheckEntry.ofFile, hcompiled]
    rfl
  have hfail : (entry "b.rules").isFail = true := by
    rw [hentry, hsecond]
    rfl
  refine ⟨hload, resolve_pairTree, entry, hok, hfail,
    hdescribes { input := "a.rules" } rfl rfl rfl, hdescribes { input := "b.rules" } rfl rfl rfl,
    hstdout, fun hzero => ?_⟩
  have hnone := hexit.mp hzero "b.rules" (by simp)
  rw [hfail] at hnone
  cases hnone

end BreakRules
