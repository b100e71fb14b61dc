import BreakRules.Command.Run
import BreakRules.Disk.Tree
import BreakRules.Proofs.Grammar
import Mathlib.Data.List.Basic

/-!
# Programs that only read

A program that writes nothing leaves every tree as it was, so it is no more than
a function from trees to answers. Reading is kept by sequencing, and with it by
every traversal of a list, and so resolving patterns, loading settings and
compiling a file only read: `Glob.readsOnly_resolve`, `readsOnly_loadSettings`,
`readsOnly_compileFile`.

What the last two answer is said by `Tree.Configures` and `compiledFile`. The
second is a function of what reading the file gives, so no other file matters.
-/

namespace BreakRules

variable {α β : Type}

/-- What a program answers when it is run on a tree. -/
def answer (x : StateM Tree α) (t : Tree) : α := (x.run t).1

/-- A program that leaves every tree as it was. -/
def ReadsOnly (x : StateM Tree α) : Prop := ∀ t, (x.run t).2 = t

@[simp] theorem answer_pure (a : α) (t : Tree) : answer (pure a) t = a := rfl

namespace ReadsOnly

theorem run_bind {x : StateM Tree α} (hx : ReadsOnly x) (f : α → StateM Tree β) (t : Tree) :
    (x >>= f).run t = (f (answer x t)).run t := by
  calc (x >>= f).run t = (f (x.run t).1).run (x.run t).2 := rfl
    _ = (f (answer x t)).run t := by rw [hx t, answer]

theorem answer_bind {x : StateM Tree α} (hx : ReadsOnly x) (f : α → StateM Tree β) (t : Tree) :
    answer (x >>= f) t = answer (f (answer x t)) t := by
  rw [answer, hx.run_bind, ← answer]

protected theorem pure (a : α) : ReadsOnly (pure a) := fun _ => rfl

protected theorem bind {x : StateM Tree α} {f : α → StateM Tree β} (hx : ReadsOnly x)
    (hf : ∀ a, ReadsOnly (f a)) : ReadsOnly (x >>= f) := by
  intro t
  rw [hx.run_bind]
  exact hf _ t

protected theorem map {x : StateM Tree α} (hx : ReadsOnly x) (f : α → β) :
    ReadsOnly (f <$> x) :=
  fun t => hx t

protected theorem mapM {f : α → StateM Tree β} (hf : ∀ a, ReadsOnly (f a)) (l : List α) :
    ReadsOnly (l.mapM f) := by
  induction l with
  | nil => exact .pure []
  | cons a l ih =>
      rw [List.mapM_cons]
      exact (hf a).bind fun b => ih.bind fun bs => .pure (b :: bs)

theorem answer_mapM {f : α → StateM Tree β} (hf : ∀ a, ReadsOnly (f a)) (l : List α)
    (t : Tree) : answer (l.mapM f) t = l.map fun a => answer (f a) t := by
  induction l with
  | nil => rfl
  | cons a l ih =>
      rw [List.mapM_cons, (hf a).answer_bind, (ReadsOnly.mapM hf l).answer_bind, ih, answer_pure,
        List.map_cons]

protected theorem filterM {p : α → StateM Tree Bool} (hp : ∀ a, ReadsOnly (p a))
    (l : List α) : ReadsOnly (l.filterM p) := by
  have haux : ∀ l kept, ReadsOnly (List.filterAuxM p l kept) := by
    intro l
    induction l with
    | nil => exact fun kept => .pure kept
    | cons a l ih => exact fun kept => (hp a).bind fun b => ih _
  exact (haux l []).bind fun kept => .pure kept.reverse

theorem answer_filterM {p : α → StateM Tree Bool} (hp : ∀ a, ReadsOnly (p a)) (l : List α)
    (t : Tree) : answer (l.filterM p) t = l.filter fun a => answer (p a) t := by
  have haux : ∀ l kept, answer (List.filterAuxM p l kept) t =
      (l.filter fun a => answer (p a) t).reverse ++ kept := by
    intro l
    induction l with
    | nil => exact fun kept => rfl
    | cons a l ih =>
        intro kept
        rw [List.filterAuxM, (hp a).answer_bind, ih]
        cases h : answer (p a) t <;> simp [h]
  calc answer (l.filterM p) t = (answer (List.filterAuxM p l []) t).reverse := rfl
    _ = l.filter fun a => answer (p a) t := by simp [haux]

end ReadsOnly

/-! ### Looking at the disk -/

theorem readsOnly_readText (path : String) :
    ReadsOnly (Disk.readText path : StateM Tree (Except ReadFault String)) := fun _ => rfl

@[simp] theorem answer_readText (path : String) (t : Tree) :
    answer (Disk.readText path) t = t.readText path := rfl

theorem readsOnly_kind? (path : String) :
    ReadsOnly (Disk.kind? path : StateM Tree (Option Kind)) := fun _ => rfl

theorem readsOnly_entries (path : String) :
    ReadsOnly (Disk.entries path : StateM Tree (List String)) := fun _ => rfl

theorem readsOnly_depth : ReadsOnly (Disk.depth : StateM Tree Nat) := fun _ => rfl

/-! ### Resolving patterns -/

namespace Glob

theorem readsOnly_isDirectory (path : String) :
    ReadsOnly (isDirectory path : StateM Tree Bool) :=
  (readsOnly_kind? path).bind fun _ => .pure _

theorem readsOnly_isFile (path : String) : ReadsOnly (isFile path : StateM Tree Bool) :=
  (readsOnly_kind? path).bind fun _ => .pure _

theorem readsOnly_children (directory : String) :
    ReadsOnly (children directory : StateM Tree (List String)) := by
  refine (readsOnly_isDirectory directory).bind fun found => ?_
  cases found with
  | true => exact (readsOnly_entries directory).bind fun _ => .pure _
  | false => exact .pure []

theorem readsOnly_below (levels : Nat) (directory : String) :
    ReadsOnly (below levels directory : StateM Tree (List String)) := by
  induction levels generalizing directory with
  | zero => exact .pure []
  | succ levels ih =>
      refine (readsOnly_children directory).bind fun paths => ?_
      exact (ReadsOnly.mapM (fun path => (ih path).bind fun _ => .pure _) paths).bind
        fun _ => .pure _

theorem readsOnly_dots (tokens : List Token) (directory : String) :
    ReadsOnly (dots tokens directory : StateM Tree (List String)) := by
  refine (readsOnly_isDirectory directory).bind fun found => ?_
  split
  · exact .pure _
  · exact .pure []

theorem readsOnly_literal (name directory : String) :
    ReadsOnly (literal name directory : StateM Tree (List String)) := by
  unfold literal
  dsimp only
  split
  · exact (readsOnly_isDirectory directory).bind fun _ => .pure _
  · exact ((readsOnly_kind? _).map _).bind fun _ => .pure _

theorem readsOnly_shaped (tokens : List Token) (directory : String) :
    ReadsOnly (shaped tokens directory : StateM Tree (List String)) :=
  (readsOnly_dots tokens directory).bind fun _ =>
    (readsOnly_children directory).bind fun _ => .pure _

theorem readsOnly_fromEach {step : String → StateM Tree (List String)}
    (h : ∀ directory, ReadsOnly (step directory)) (directories : List String) :
    ReadsOnly (fromEach step directories) :=
  (ReadsOnly.mapM h directories).bind fun _ => .pure _

theorem readsOnly_expand (levels : Nat) (segments : List Segment) (paths : List String) :
    ReadsOnly (expand levels segments paths : StateM Tree (List String)) := by
  fun_induction expand (m := StateM Tree) levels segments paths with
  | case1 paths => exact .pure paths
  | case2 name rest directories ih =>
      exact (readsOnly_fromEach (readsOnly_literal name) directories).bind ih
  | case3 tokens rest directories ih =>
      exact (readsOnly_fromEach (readsOnly_shaped tokens) directories).bind ih
  | case4 directories =>
      exact (readsOnly_fromEach (readsOnly_below levels) directories).bind
        fun paths => ReadsOnly.filterM readsOnly_isDirectory paths
  | case5 next rest directories ih =>
      exact (readsOnly_fromEach (readsOnly_below levels) directories).bind fun paths => ih paths

theorem readsOnly_files (pattern : Pattern) :
    ReadsOnly (pattern.files : StateM Tree (List String)) := by
  unfold Pattern.files
  split
  · exact .pure []
  · exact readsOnly_depth.bind fun levels =>
      (readsOnly_expand levels pattern.segments [pattern.root]).bind
        fun paths => ReadsOnly.filterM readsOnly_isFile paths

theorem readsOnly_resolve (texts : List String) :
    ReadsOnly (resolve texts : StateM Tree (Except ResolveError (List String))) := by
  unfold resolve
  split
  · exact .pure _
  · next patterns _ => exact (ReadsOnly.mapM readsOnly_files patterns).bind fun _ => .pure _

end Glob

/-! ### Settings and rule files -/

theorem readsOnly_loadSettings (config : Option String) :
    ReadsOnly (loadSettings config : StateM Tree (List Record × Except Failure Settings)) := by
  cases config with
  | none => exact .pure _
  | some path =>
      refine (readsOnly_readText path).bind fun read => ?_
      cases read with
      | error f => exact .pure _
      | ok text =>
          dsimp only
          split
          · exact .pure _
          · exact .pure _

/-- The settings that a file in a tree gives, or the defaults without a file. -/
def Tree.Configures (t : Tree) : Option String → Settings → Prop
  | none, settings => settings = {}
  | some path, settings =>
      ∃ text, t.readText path = .ok text ∧ Settings.parse? text = some settings

theorem answer_loadSettings_eq_ok_iff {config : Option String} {t : Tree} {settings : Settings} :
    (answer (loadSettings config) t).2 = .ok settings ↔ t.Configures config settings := by
  cases config with
  | none => exact ⟨fun h => (Except.ok.inj h).symm, fun h => congrArg Except.ok (Eq.symm h)⟩
  | some path =>
      rw [loadSettings, (readsOnly_readText path).answer_bind, answer_readText, Tree.Configures]
      cases t.readText path with
      | error f => simp
      | ok text => cases hparse : Settings.parse? text <;> simp [hparse]

theorem readsOnly_compileFile (part : Part) (path : String) (options : Options) :
    ReadsOnly (compileFile part path options :
      StateM Tree (List Record × Except Failure Compilation)) := by
  refine (readsOnly_readText path).bind fun read => ?_
  cases read with
  | error f => exact .pure _
  | ok source =>
      dsimp only
      split
      · exact .pure _
      · exact .pure _

/-- What compiling a file gives, by what reading it gives. -/
def compiledFile (options : Options) (path : String) :
    Except ReadFault String → Except Failure Compilation
  | .error f => .error (.unreadable path f)
  | .ok source => (compile source options).mapError (.notCompiled path)

theorem compiledFile_eq_ok_iff {options : Options} {path : String}
    {read : Except ReadFault String} {c : Compilation} :
    compiledFile options path read = .ok c ↔
      ∃ source, read = .ok source ∧ compile source options = .ok c := by
  cases read with
  | error f => simp [compiledFile]
  | ok source => cases h : compile source options <;> simp [compiledFile, Except.mapError, h]

theorem answer_compileFile_snd (part : Part) (path : String) (options : Options) (t : Tree) :
    (answer (compileFile part path options) t).2 =
      compiledFile options path (t.readText path) := by
  rw [compileFile, (readsOnly_readText path).answer_bind, answer_readText]
  cases t.readText path with
  | error f => rfl
  | ok source =>
      dsimp only
      rw [compiledFile, compile]
      split
      · next h => rw [h]; rfl
      · next h => rw [h]; rfl

/-- What is noted about a file that compiles: what the compiler notes, and the findings. -/
theorem answer_compileFile_fst {part : Part} {path source : String} {options : Options} {t : Tree}
    {c : Compilation} (hread : t.readText path = .ok source)
    (hcompile : compile source options = .ok c) :
    (answer (compileFile part path options) t).1 =
      journal source options ++ findingRecords part path c.findings := by
  rw [compileFile, (readsOnly_readText path).answer_bind, answer_readText, hread]
  rw [compile] at hcompile
  simp only [hcompile, answer_pure, journal]

end BreakRules
