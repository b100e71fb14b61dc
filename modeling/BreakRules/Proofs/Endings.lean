import BreakRules.Proofs.Placement
import BreakRules.Proofs.ReadOnly

/-!
# How commands end

For each command, the ways in which it can end on a tree: with which outcome,
and with which tree left behind. `CompileRequest.ends`, `CheckRequest.ends` and
`TemplateRequest.ends` say that there are no others. What is known about the
commands is derived from these and not from their programs.
-/

namespace BreakRules

theorem replace_eq_updating (path text : String) :
    (Disk.replace path text : StateM Tree (Except ReplaceFault Unit)) =
      updating (·.replace path text) := rfl

theorem overwrite_eq_updating (path text : String) :
    (Disk.overwrite path text : StateM Tree (Except SystemFault Unit)) =
      updating (·.overwrite path text) := rfl

/-- An operation that writes and what comes behind it: it goes on in the tree that
the operation makes, or in the tree as it was. -/
theorem run_updating_bind {ε β : Type} (g : Tree → Except ε Tree)
    (f : Except ε Unit → StateM Tree β) (t : Tree) :
    (updating g >>= f).run t =
      match g t with
      | .ok t' => (f (.ok ())).run t'
      | .error e => (f (.error e)).run t := by
  have hrun : (updating g >>= f).run t = (f (updating g t).1).run (updating g t).2 := rfl
  rw [hrun, updating]
  cases g t with
  | error e => rfl
  | ok t' => rfl

def Outcome.journal (o : Outcome) : List Record :=
  Event.records o.events

/-! ### Compiling -/

namespace CompileRequest

/-- Compiling has read everything it needs: the settings and the compiled input. -/
structure Compiled (a : CompileRequest) (t : Tree) (events : List Event) (settings : Settings)
    (c : Compilation) : Prop where
  configures : t.Configures a.config settings
  compiles :
    compiledFile (chosenOptions settings a.denyWarnings) a.input (t.readText a.input) = .ok c
  events_eq :
    events = a.events ((answer (loadSettings a.config) t).1 ++
      (answer (compileFile .compileCommand a.input (chosenOptions settings a.denyWarnings)) t).1)

inductive Ends (a : CompileRequest) (t : Tree) : Outcome × Tree → Prop where
  | unconfigured {events : List Event} {f : Failure}
      (hload : (answer (loadSettings a.config) t).2 = .error f) :
      Ends a t ({ events, failure := some f }, t)
  | notCompiled {events : List Event} {settings : Settings} {f : Failure}
      (hload : t.Configures a.config settings)
      (hfile : compiledFile (chosenOptions settings a.denyWarnings) a.input
        (t.readText a.input) = .error f) :
      Ends a t ({ events, failure := some f }, t)
  | printed {events : List Event} {settings : Settings} {c : Compilation}
      (hcompiled : a.Compiled t events settings c) (houtput : a.output = none) :
      Ends a t ({ events, stdout := a.render settings.output c.machine }, t)
  | notReplaced {events : List Event} {settings : Settings} {c : Compilation}
      {output : String} {f : ReplaceFault}
      (hcompiled : a.Compiled t events settings c) (houtput : a.output = some output)
      (hreplace : t.replace output (a.render settings.output c.machine) = .error f) :
      Ends a t ({ events, failure := some (.notReplaced output f) }, t)
  | replaced {events : List Event} {settings : Settings} {c : Compilation}
      {output : String} {t' : Tree}
      (hcompiled : a.Compiled t events settings c) (houtput : a.output = some output)
      (hreplace : t.replace output (a.render settings.output c.machine) = .ok t') :
      Ends a t ({ events, notice := a.notice output c }, t')

theorem ends (a : CompileRequest) (t : Tree) :
    a.Ends t ((a.run : StateM Tree Outcome).run t) := by
  rw [run, (readsOnly_loadSettings _).run_bind]
  rcases hload : answer (loadSettings a.config) t with ⟨notes, f | settings⟩
  · exact .unconfigured (by rw [hload])
  dsimp only
  rw [(readsOnly_compileFile _ _ _).run_bind]
  have hconfigures : t.Configures a.config settings :=
    answer_loadSettings_eq_ok_iff.mp (by rw [hload])
  have hsnd := answer_compileFile_snd .compileCommand a.input
    (chosenOptions settings a.denyWarnings) t
  rcases hfile : answer (compileFile .compileCommand a.input
    (chosenOptions settings a.denyWarnings)) t with ⟨more, f | c⟩
  · rw [hfile] at hsnd
    exact .notCompiled hconfigures hsnd.symm
  rw [hfile] at hsnd
  have hcompiled : a.Compiled t (a.events (notes ++ more)) settings c :=
    ⟨hconfigures, hsnd.symm, by rw [hload, hfile]⟩
  dsimp only
  cases houtput : a.output with
  | none => exact .printed hcompiled houtput
  | some output =>
      dsimp only
      rw [replace_eq_updating, run_updating_bind]
      cases hreplace : t.replace output (a.render settings.output c.machine) with
      | error f => exact .notReplaced hcompiled houtput hreplace
      | ok t' => exact .replaced hcompiled houtput hreplace

end CompileRequest

/-! ### Checking -/

namespace CheckRequest

/-- What compiling one of the files gives. -/
def result (a : CheckRequest) (t : Tree) (settings : Settings) (path : String) :
    Except Failure Compilation :=
  compiledFile (chosenOptions settings a.denyWarnings) path (t.readText path)

def failed (a : CheckRequest) (t : Tree) (settings : Settings) (paths : List String) : Nat :=
  paths.countP fun path => !(a.result t settings path).isOk

inductive Ends (a : CheckRequest) (t : Tree) : Outcome × Tree → Prop where
  | unconfigured {events : List Event} {f : Failure}
      (hload : (answer (loadSettings a.config) t).2 = .error f) :
      Ends a t ({ events, failure := some f }, t)
  | unresolved {events : List Event} {settings : Settings} {e : Glob.ResolveError}
      (hload : t.Configures a.config settings)
      (hresolve : answer (Glob.resolve a.patterns) t = .error e) :
      Ends a t ({ events, failure := some (.unresolved e) }, t)
  | checked {events : List Event} {settings : Settings} {paths : List String}
      (hload : t.Configures a.config settings)
      (hresolve : answer (Glob.resolve a.patterns) t = .ok paths) :
      Ends a t
        ({ events
           stdout := "".intercalate
             (paths.map fun path => checkLine path (a.result t settings path))
           failure :=
             if a.failed t settings paths = 0 then none
             else some (.checkFailed (a.failed t settings paths) paths.length) }, t)

theorem ends (a : CheckRequest) (t : Tree) :
    a.Ends t ((a.run : StateM Tree Outcome).run t) := by
  rw [run, (readsOnly_loadSettings _).run_bind]
  rcases hload : answer (loadSettings a.config) t with ⟨notes, f | settings⟩
  · exact .unconfigured (by rw [hload])
  dsimp only
  rw [(Glob.readsOnly_resolve _).run_bind]
  have hconfigures : t.Configures a.config settings :=
    answer_loadSettings_eq_ok_iff.mp (by rw [hload])
  cases hresolve : answer (Glob.resolve a.patterns) t with
  | error e => exact .unresolved hconfigures hresolve
  | ok paths =>
      dsimp only
      have hread : ∀ path, ReadsOnly (compileFile .checkCommand path
          (chosenOptions settings a.denyWarnings) :
            StateM Tree (List Record × Except Failure Compilation)) :=
        fun path => readsOnly_compileFile _ path _
      rw [(ReadsOnly.mapM hread paths).run_bind, ReadsOnly.answer_mapM hread,
        ← List.map_prod_left_eq_zip]
      have hresult : ∀ path, (answer (compileFile .checkCommand path
          (chosenOptions settings a.denyWarnings)) t).2 = a.result t settings path :=
        fun path => answer_compileFile_snd _ path _ t
      simp only [← List.countP_eq_length_filter, List.countP_map, List.map_map,
        Function.comp_def, hresult]
      exact .checked hconfigures hresolve

end CheckRequest

/-! ### The template -/

namespace TemplateRequest

inductive Ends (a : TemplateRequest) (t : Tree) : Outcome × Tree → Prop where
  | present (hpresent : (t.kind? a.output).isSome) (hforce : a.force = false) :
      Ends a t ({ failure := some (.outputExists a.output) }, t)
  | notWritten {f : SystemFault} (hwrite : t.overwrite a.output Settings.template = .error f) :
      Ends a t ({ failure := some (.notWritten a.output f) }, t)
  | written {t' : Tree} (hallowed : (t.kind? a.output).isSome → a.force = true)
      (hwrite : t.overwrite a.output Settings.template = .ok t') :
      Ends a t ({ stdout := a.done }, t')

theorem ends (a : TemplateRequest) (t : Tree) :
    a.Ends t ((a.run : StateM Tree Outcome).run t) := by
  rw [run, (readsOnly_kind? _).run_bind]
  have hkind : answer (Disk.kind? a.output) t = t.kind? a.output := rfl
  rw [hkind]
  split
  · next h =>
      obtain ⟨hpresent, hforce⟩ := Bool.and_eq_true_iff.mp h
      exact .present hpresent (by simpa using hforce)
  · next h =>
      have hallowed : (t.kind? a.output).isSome → a.force = true := by simpa using h
      rw [overwrite_eq_updating, run_updating_bind]
      cases hwrite : t.overwrite a.output Settings.template with
      | error f => exact .notWritten hwrite
      | ok t' => exact .written hallowed hwrite

end TemplateRequest

end BreakRules
