import BreakRules.Proofs.Agreement
import BreakRules.Proofs.PathOrder

/-!
# Resolved patterns

Which paths a pattern matches is `Pattern.Matches`. What `resolve` answers depends on no
more than this: it fails by the first text that is no pattern, or else if no pattern
matches a regular file, and it lists the regular files that are matched otherwise, in the
order of paths and each once. So it does not matter in which order the patterns stand, how
often one of them is given, or whether a file is matched by several.

A path can be written in several ways, such as `a/./b` and `a/b`. A list of files holds
every path once, in one of the ways in which the patterns lead to it, so two lists are
compared by the components of their paths.
-/

namespace BreakRules.Glob

def IsPattern (text : String) : Prop := (Pattern.read? text).isSome

instance : DecidablePred IsPattern := fun text =>
  inferInstanceAs (Decidable ((Pattern.read? text).isSome = true))

/-- The segments of a pattern lead to a path, and to a directory if the pattern ends with
a slash. -/
def Pattern.Matches (p : Pattern) (t : Tree) (path : String) : Prop :=
  path ∈ answer (expand t.depth p.segments [p.root]) t ∧
    (p.directoriesOnly = true → t.kind? path = some .directory)

/-- At least one of several patterns matches a path, and a regular file is there. -/
def FileMatched (t : Tree) (texts : List String) (path : String) : Prop :=
  t.kind? path = some .file ∧
    ∃ text ∈ texts, ∃ p, Pattern.read? text = some p ∧ p.Matches t path

/-- The regular files that are matched, in the order of paths and each once. -/
structure Lists (t : Tree) (texts files : List String) : Prop where
  matched : ∀ path ∈ files, FileMatched t texts path
  complete : ∀ path, FileMatched t texts path →
    ∃ kept ∈ files, Path.components kept = Path.components path
  increasing : files.Pairwise fun a b => Path.components a < Path.components b

/-! ### One pattern after the other -/

theorem answer_files {p : Pattern} (h : p.directoriesOnly = false) (t : Tree) :
    answer p.files t = (answer (expand t.depth p.segments [p.root]) t).filter
      fun path => t.kind? path == some .file := by
  have hdepth : answer (Disk.depth : StateM Tree Nat) t = t.depth := rfl
  have hisFile : (fun path => answer (isFile path) t) = fun path => t.kind? path == some .file :=
    rfl
  rw [Pattern.files, h, if_neg Bool.false_ne_true, readsOnly_depth.answer_bind, hdepth,
    (readsOnly_expand _ _ _).answer_bind, ReadsOnly.answer_filterM readsOnly_isFile, hisFile]

theorem mem_answer_files_iff {p : Pattern} {t : Tree} {path : String} :
    path ∈ answer p.files t ↔ p.Matches t path ∧ t.kind? path = some .file := by
  cases hdirectories : p.directoriesOnly with
  | true =>
      -- A pattern that ends with a slash matches directories, and no file is one.
      have hnone : answer p.files t = [] := by rw [Pattern.files, hdirectories]; rfl
      rw [hnone]
      refine iff_of_false List.not_mem_nil fun h => ?_
      cases (h.1.2 hdirectories).symm.trans h.2
  | false => simp [answer_files hdirectories, Pattern.Matches, hdirectories]

/-- The files of all patterns behind each other, as often as they are matched. -/
def matchedFiles (t : Tree) (texts : List String) : List String :=
  (texts.filterMap Pattern.read?).flatMap fun p => answer p.files t

theorem mem_matchedFiles_iff {t : Tree} {texts : List String} {path : String} :
    path ∈ matchedFiles t texts ↔ FileMatched t texts path := by
  simp only [matchedFiles, FileMatched, List.mem_flatMap, List.mem_filterMap,
    mem_answer_files_iff]
  constructor
  · rintro ⟨p, ⟨text, htext, hread⟩, hmatches, hfile⟩
    exact ⟨hfile, text, htext, p, hread, hmatches⟩
  · rintro ⟨hfile, text, htext, p, hread, hmatches⟩
    exact ⟨p, ⟨text, htext, hread⟩, hmatches, hfile⟩

theorem matchedFiles_eq_nil_iff {t : Tree} {texts : List String} :
    matchedFiles t texts = [] ↔ ∀ path, ¬ FileMatched t texts path := by
  simp only [List.eq_nil_iff_forall_not_mem, mem_matchedFiles_iff]

section Reading

-- How a pattern is read plays no part here, and opening it takes long.
seal Pattern.read?

theorem readPatterns_cons (text : String) (texts : List String) :
    readPatterns (text :: texts) =
      match Pattern.read? text with
      | none => .error (.invalidPattern text)
      | some p => (p :: ·) <$> readPatterns texts := rfl

theorem readPatterns_eq (texts : List String) :
    readPatterns texts =
      match texts.find? (¬ IsPattern ·) with
      | some text => .error (.invalidPattern text)
      | none => .ok (texts.filterMap Pattern.read?) := by
  induction texts with
  | nil => rfl
  | cons text texts ih =>
      rw [readPatterns_cons]
      cases hread : Pattern.read? text with
      | none => simp [IsPattern, hread]
      | some p =>
          have hpattern : IsPattern text := by rw [IsPattern, hread]; rfl
          simp only [ih, List.find?_cons, hpattern, not_true, decide_false,
            List.filterMap_cons, hread]
          cases texts.find? (¬ IsPattern ·) <;> rfl

end Reading

theorem answer_resolve_eq (t : Tree) (texts : List String) :
    answer (resolve texts) t =
      match texts.find? (¬ IsPattern ·) with
      | some text => .error (.invalidPattern text)
      | none =>
          if matchedFiles t texts = [] then .error (.noFilesMatched texts)
          else .ok (sortPaths (matchedFiles t texts)) := by
  rw [resolve, readPatterns_eq]
  cases texts.find? (¬ IsPattern ·) with
  | some text => rfl
  | none =>
      have hfiles : (answer ((texts.filterMap Pattern.read?).mapM (·.files)) t).flatten =
          matchedFiles t texts := by
        rw [ReadsOnly.answer_mapM readsOnly_files, matchedFiles, List.flatMap_def]
      simp only
      rw [(ReadsOnly.mapM readsOnly_files _).answer_bind, hfiles, answer_pure]
      simp only [List.isEmpty_iff]

theorem find?_not_isPattern_eq_none_iff {texts : List String} :
    texts.find? (¬ IsPattern ·) = none ↔ ∀ text ∈ texts, IsPattern text := by
  simp [List.find?_eq_none]

theorem answer_resolve_of_isPattern {t : Tree} {texts : List String}
    (h : ∀ text ∈ texts, IsPattern text) :
    answer (resolve texts) t =
      if matchedFiles t texts = [] then .error (.noFilesMatched texts)
      else .ok (sortPaths (matchedFiles t texts)) := by
  rw [answer_resolve_eq, find?_not_isPattern_eq_none_iff.mpr h]

theorem isPattern_of_answer_resolve {t : Tree} {texts : List String}
    (h : ∀ text, answer (resolve texts) t ≠ .error (.invalidPattern text)) :
    ∀ text ∈ texts, IsPattern text := by
  rw [answer_resolve_eq] at h
  refine find?_not_isPattern_eq_none_iff.mp (Option.eq_none_iff_forall_ne_some.mpr ?_)
  intro text hfirst
  rw [hfirst] at h
  exact h text rfl

theorem answer_resolve_eq_invalidPattern_iff {t : Tree} {texts : List String} {text : String} :
    answer (resolve texts) t = .error (.invalidPattern text) ↔
      texts.find? (¬ IsPattern ·) = some text := by
  rw [answer_resolve_eq]
  cases texts.find? (¬ IsPattern ·) with
  | some first => simp
  | none =>
      simp only [reduceCtorEq, iff_false]
      split <;> simp

theorem answer_resolve_eq_noFilesMatched_iff {t : Tree} {texts shown : List String} :
    answer (resolve texts) t = .error (.noFilesMatched shown) ↔
      (∀ text ∈ texts, IsPattern text) ∧ (∀ path, ¬ FileMatched t texts path) ∧
        shown = texts := by
  constructor
  · intro h
    have hpatterns : ∀ text ∈ texts, IsPattern text :=
      isPattern_of_answer_resolve (t := t) (by simp [h])
    rw [answer_resolve_of_isPattern hpatterns] at h
    split at h
    · next hnone =>
        cases h
        exact ⟨hpatterns, matchedFiles_eq_nil_iff.mp hnone, rfl⟩
    · cases h
  · rintro ⟨hpatterns, hnone, rfl⟩
    rw [answer_resolve_of_isPattern hpatterns, if_pos (matchedFiles_eq_nil_iff.mpr hnone)]

theorem answer_resolve_eq_ok_iff {t : Tree} {texts files : List String} :
    answer (resolve texts) t = .ok files ↔
      (∀ text ∈ texts, IsPattern text) ∧ (∃ path, FileMatched t texts path) ∧
        files = sortPaths (matchedFiles t texts) := by
  have hsome : (∃ path, FileMatched t texts path) ↔ ¬ matchedFiles t texts = [] := by
    rw [matchedFiles_eq_nil_iff]
    exact not_forall_not.symm
  constructor
  · intro h
    have hpatterns : ∀ text ∈ texts, IsPattern text :=
      isPattern_of_answer_resolve (t := t) (by simp [h])
    rw [answer_resolve_of_isPattern hpatterns] at h
    split at h
    · cases h
    · next hne =>
        cases h
        exact ⟨hpatterns, hsome.mpr hne, rfl⟩
  · rintro ⟨hpatterns, hmatched, rfl⟩
    rw [answer_resolve_of_isPattern hpatterns, if_neg (hsome.mp hmatched)]

theorem lists_sortPaths (t : Tree) (texts : List String) :
    Lists t texts (sortPaths (matchedFiles t texts)) where
  matched _ h := mem_matchedFiles_iff.mp (mem_of_mem_sortPaths h)
  complete _ h := exists_mem_sortPaths (mem_matchedFiles_iff.mpr h)
  increasing := pairwise_sortPaths _

/-! ### Lists of the same files -/

namespace Lists

variable {t : Tree} {texts texts' files files' : List String}

theorem mem_map_components_iff (h : Lists t texts files) {components : List Component} :
    components ∈ files.map Path.components ↔
      ∃ path, FileMatched t texts path ∧ Path.components path = components := by
  rw [List.mem_map]
  constructor
  · rintro ⟨path, hpath, rfl⟩
    exact ⟨path, h.matched path hpath, rfl⟩
  · rintro ⟨path, hpath, rfl⟩
    exact h.complete path hpath

theorem map_components_eq (h : Lists t texts files) (h' : Lists t texts' files')
    (hsame : ∀ path, FileMatched t texts' path ↔ FileMatched t texts path) :
    files'.map Path.components = files.map Path.components := by
  refine List.Pairwise.eq_of_mem_iff (r := (· < ·)) (List.pairwise_map.mpr h'.increasing)
    (List.pairwise_map.mpr h.increasing) fun components => ?_
  simp only [h.mem_map_components_iff, h'.mem_map_components_iff, hsame]

/-- Where every path is written in one way, the lists are the same as texts. -/
theorem eq_of_written_once (h : Lists t texts files) (h' : Lists t texts' files')
    (hsame : ∀ path, FileMatched t texts' path ↔ FileMatched t texts path)
    (honce : ∀ a b, FileMatched t texts a → FileMatched t texts b →
      Path.components a = Path.components b → a = b) : files' = files := by
  have hlength : files'.length = files.length := by
    rw [← List.length_map Path.components, h.map_components_eq h' hsame, List.length_map]
  refine List.ext_getElem hlength fun i hi' hi => ?_
  refine honce _ _ ((hsame _).mp (h'.matched _ (List.getElem_mem hi')))
    (h.matched _ (List.getElem_mem hi)) ?_
  have hmap := List.getElem_of_eq (h.map_components_eq h' hsame) (by simpa using hi')
  simpa using hmap

end Lists

/-! ### The answer as a sorted set -/

/-- What patterns resolve to. It is an error with the first text that is no pattern if
there is one, or else an error with all texts if no pattern matches a regular file.
Otherwise it is a list of the regular files that are matched. Patterns that match the same
files resolve to the same paths, so above all the same patterns in another order or number,
and to the same texts where every path is written in one way. -/
theorem resolve_sorted_set (t : Tree) (texts : List String) :
    (∀ text, answer (resolve texts) t = .error (.invalidPattern text) ↔
      texts.find? (¬ IsPattern ·) = some text) ∧
    ((∃ text, answer (resolve texts) t = .error (.invalidPattern text)) ↔
      ∃ text ∈ texts, ¬ IsPattern text) ∧
    (∀ shown, answer (resolve texts) t = .error (.noFilesMatched shown) ↔
      (∀ text ∈ texts, IsPattern text) ∧ (∀ path, ¬ FileMatched t texts path) ∧
        shown = texts) ∧
    ((∃ files, answer (resolve texts) t = .ok files) ↔
      (∀ text ∈ texts, IsPattern text) ∧ ∃ path, FileMatched t texts path) ∧
    ∀ files, answer (resolve texts) t = .ok files →
      Lists t texts files ∧
      (∀ texts', (∀ text, text ∈ texts' ↔ text ∈ texts) →
        ∃ files', answer (resolve texts') t = .ok files' ∧
          files'.map Path.components = files.map Path.components) ∧
      ∀ texts', (∀ text ∈ texts', IsPattern text) →
        (∀ path, FileMatched t texts' path ↔ FileMatched t texts path) →
        ∃ files', answer (resolve texts') t = .ok files' ∧
          files'.map Path.components = files.map Path.components ∧
          ((∀ a b, FileMatched t texts a → FileMatched t texts b →
            Path.components a = Path.components b → a = b) → files' = files) := by
  refine ⟨fun text => answer_resolve_eq_invalidPattern_iff, ?invalid,
    fun shown => answer_resolve_eq_noFilesMatched_iff, ?ok, fun files h => ?lists⟩
  case invalid =>
    simp only [answer_resolve_eq_invalidPattern_iff]
    rw [← Option.isSome_iff_exists, List.find?_isSome]
    simp
  case ok =>
    simp [answer_resolve_eq_ok_iff]
  case lists =>
    obtain ⟨hpatterns, ⟨path, hpath⟩, rfl⟩ := answer_resolve_eq_ok_iff.mp h
    have hlists := lists_sortPaths t texts
    have hfiles (texts' : List String) (hpatterns' : ∀ text ∈ texts', IsPattern text)
        (hsame : ∀ path, FileMatched t texts' path ↔ FileMatched t texts path) :
        answer (resolve texts') t = .ok (sortPaths (matchedFiles t texts')) :=
      answer_resolve_eq_ok_iff.mpr ⟨hpatterns', ⟨path, (hsame path).mpr hpath⟩, rfl⟩
    refine ⟨hlists, fun texts' hmem => ?members, fun texts' hpatterns' hsame => ?files⟩
    case members =>
      have hsame (path : String) : FileMatched t texts' path ↔ FileMatched t texts path := by
        simp only [FileMatched, hmem]
      exact ⟨_, hfiles texts' (fun text htext => hpatterns text ((hmem text).mp htext)) hsame,
        hlists.map_components_eq (lists_sortPaths t texts') hsame⟩
    case files =>
      exact ⟨_, hfiles texts' hpatterns' hsame,
        hlists.map_components_eq (lists_sortPaths t texts') hsame,
        hlists.eq_of_written_once (lists_sortPaths t texts') hsame⟩

/-! ### A file beside a directory -/

theorem answer_fromEach {step : String → StateM Tree (List String)}
    (h : ∀ directory, ReadsOnly (step directory)) (directories : List String) (t : Tree) :
    answer (fromEach step directories) t =
      (directories.flatMap fun directory => answer (step directory) t).eraseDups := by
  rw [fromEach, (ReadsOnly.mapM h _).answer_bind, ReadsOnly.answer_mapM h, answer_pure,
    distinct_eq_eraseDups, List.flatMap_def]

theorem answer_expand_literal (levels : Nat) (name : String) (rest : List Segment)
    (directories : List String) (t : Tree) :
    answer (expand levels (.literal name :: rest) directories) t =
      answer (expand levels rest
        (directories.flatMap fun directory => answer (literal name directory) t).eraseDups) t := by
  rw [expand, (readsOnly_fromEach (readsOnly_literal name) _).answer_bind,
    answer_fromEach (readsOnly_literal name)]

theorem answer_expand_shape (levels : Nat) (tokens : List Token) (rest : List Segment)
    (directories : List String) (t : Tree) :
    answer (expand levels (.shape tokens :: rest) directories) t =
      answer (expand levels rest
        (directories.flatMap fun directory => answer (shaped tokens directory) t).eraseDups) t := by
  rw [expand, (readsOnly_fromEach (readsOnly_shaped tokens) _).answer_bind,
    answer_fromEach (readsOnly_shaped tokens)]

/-- A tree with a rule file and a directory that has one too. -/
def nestedTree : Tree :=
  (sampleTree.put ["a"] .directory).put ["a", "x.rules"] (.file "".toUTF8)

theorem matchedFiles_nestedTree :
    matchedFiles nestedTree ["a/x.rules", "a.rules"] = ["a/x.rules", "a.rules"] ∧
      matchedFiles nestedTree ["a.rules", "?.rules", "a/x.rules", "a.rules"] =
        ["a.rules", "a.rules", "a/x.rules", "a.rules"] := by
  have hname : Pattern.read? "a.rules" = some ⟨".", [.literal "a.rules"], false⟩ := by
    decide +kernel
  have hpath : Pattern.read? "a/x.rules" =
      some ⟨".", [.literal "a", .literal "x.rules"], false⟩ := by
    decide +kernel
  have hshape : Pattern.read? "?.rules" =
      some ⟨".", [.shape (.anyChar :: ".rules".toList.map .char)], false⟩ := by
    decide +kernel
  simp only [matchedFiles, List.filterMap_cons, List.filterMap_nil, hname, hpath, hshape,
    List.flatMap_cons, List.flatMap_nil]
  rw [answer_files rfl, answer_files rfl, answer_files rfl, answer_expand_literal,
    answer_expand_literal, answer_expand_literal, answer_expand_shape]
  decide +kernel

theorem resolve_sorted_set_nestedTree :
    answer (resolve ["a/x.rules", "a.rules"]) nestedTree = .ok ["a/x.rules", "a.rules"] ∧
      (∀ text ∈ ["a.rules", "?.rules", "a/x.rules", "a.rules"], IsPattern text) ∧
      (∀ path, FileMatched nestedTree ["a.rules", "?.rules", "a/x.rules", "a.rules"] path ↔
        FileMatched nestedTree ["a/x.rules", "a.rules"] path) ∧
      answer (resolve ["a.rules", "?.rules", "a/x.rules", "a.rules"]) nestedTree =
        .ok ["a/x.rules", "a.rules"] := by
  obtain ⟨htwo, hfour⟩ := matchedFiles_nestedTree
  have hless : Path.compare "a/x.rules" "a.rules" = .lt := by decide +kernel
  have hsorted : sortPaths ["a/x.rules", "a.rules"] = ["a/x.rules", "a.rules"] := by
    rw [sortPaths, List.mergeSort_of_pairwise (by simp [hless])]
    simp [dropRepeated, hless]
  have hpatterns : ∀ text ∈ ["a.rules", "?.rules", "a/x.rules", "a.rules"], IsPattern text := by
    decide +kernel
  have hresolve : answer (resolve ["a/x.rules", "a.rules"]) nestedTree =
      .ok ["a/x.rules", "a.rules"] := by
    have hvalid : ∀ text ∈ ["a/x.rules", "a.rules"], IsPattern text := by decide +kernel
    rw [answer_resolve_of_isPattern hvalid, htwo, hsorted, if_neg (List.cons_ne_nil _ _)]
  have hmatched (path : String) : FileMatched nestedTree ["a/x.rules", "a.rules"] path ↔
      path = "a/x.rules" ∨ path = "a.rules" := by
    rw [← mem_matchedFiles_iff, htwo]
    simp
  have hsame (path : String) :
      FileMatched nestedTree ["a.rules", "?.rules", "a/x.rules", "a.rules"] path ↔
        FileMatched nestedTree ["a/x.rules", "a.rules"] path := by
    rw [hmatched, ← mem_matchedFiles_iff, hfour]
    simp only [List.mem_cons, List.not_mem_nil, or_false]
    rw [← or_assoc, or_self, or_left_comm, or_self]
  obtain ⟨-, -, -, -, hlists⟩ := resolve_sorted_set nestedTree ["a/x.rules", "a.rules"]
  obtain ⟨-, -, hother⟩ := hlists _ hresolve
  obtain ⟨files', hfiles', -, honce⟩ := hother _ hpatterns hsame
  refine ⟨hresolve, hpatterns, hsame, ?_⟩
  rw [hfiles', honce]
  intro a b ha hb hcomponents
  have hdiffer : Path.components "a/x.rules" ≠ Path.components "a.rules" := by decide +kernel
  rcases (hmatched a).mp ha with rfl | rfl <;> rcases (hmatched b).mp hb with rfl | rfl
  · rfl
  · exact absurd hcomponents hdiffer
  · exact absurd hcomponents.symm hdiffer
  · rfl

end BreakRules.Glob
