import BreakRules.Proofs.Effects
import BreakRules.Proofs.Enumerators
import Mathlib.Data.String.Basic

/-!
# Replaced files

A file is replaced by way of one beside it, which is made in the directory of the path and
then takes the place of what is where the path leads. That directory is found by another
path than the place itself: the last component is cut off and the rest written anew. The
two agree, and so a path admits a file exactly if replacing it succeeds:
`Tree.replaceBytes_eq_ok_iff`.

`Tree.replaceBeside` takes the steps one by one, with the file that is made in between. For
every name that is not in use it ends in the same way and leaves the same tree:
`Tree.replaceBeside_eq`. No trace of the file beside is left, whether it took the place or
not.

A sequence of replacements is what each of them is, on the tree that the one before left.
-/

namespace BreakRules

/-! ### The directory of a path -/

namespace Path

theorem sublist_intercalate {parts parts' : List (List Char)} (h : parts'.Sublist parts) :
    (['/'].intercalate parts').Sublist (['/'].intercalate parts) := by
  induction h with
  | slnil => exact List.Sublist.refl _
  | @cons parts' parts part h ih =>
      by_cases hnil : parts = []
      · subst hnil
        rw [List.sublist_nil.mp h]
        exact List.nil_sublist _
      · rw [List.intercalate_cons_of_ne_nil hnil]
        exact ih.trans (List.sublist_append_right _ _)
  | @cons_cons parts' parts part h ih =>
      by_cases hnil' : parts' = []
      · subst hnil'
        rw [List.intercalate_singleton]
        by_cases hnil : parts = []
        · rw [hnil, List.intercalate_singleton]
        · rw [List.intercalate_cons_of_ne_nil hnil, List.append_assoc]
          exact List.sublist_append_left _ _
      · have hnil : parts ≠ [] := fun hnil => hnil' (List.sublist_nil.mp (hnil ▸ h))
        rw [List.intercalate_cons_of_ne_nil hnil', List.intercalate_cons_of_ne_nil hnil]
        exact (List.Sublist.refl _).append ih

theorem text_of_component? {segment : String} {c : Component} (h : component? segment = some c) :
    c.text = segment := by
  unfold component? at h
  split at h
  · cases h
  · split at h
    · next hdots =>
        cases h
        exact hdots.symm
    · cases h
      rfl

theorem map_text_sublist (parts : List String) :
    ((parts.filterMap component?).map (·.text)).Sublist parts := by
  induction parts with
  | nil => exact List.Sublist.refl _
  | cons part parts ih =>
      rw [List.filterMap_cons]
      cases h : component? part with
      | none => exact ih.cons part
      | some c =>
          rw [List.map_cons, text_of_component? h]
          exact ih.cons_cons part

theorem component?_ne_root (segment : String) : component? segment ≠ some .root := by
  unfold component?
  split
  · simp
  · split <;> simp

/-- The first components of a path make a path of characters that stand in it. -/
theorem toList_ofComponents_sublist {path : String} {cs : List Component}
    (h : cs <+: components path) : (ofComponents cs).toList.Sublist path.toList := by
  obtain ⟨first, rest, hsegments⟩ := List.exists_cons_of_ne_nil (segments_ne_nil path)
  have htexts {cs' : List Component} {parts : List String}
      (h' : cs' <+: parts.filterMap component?) : (cs'.map (·.text)).Sublist parts :=
    (h'.sublist.map _).trans (map_text_sublist parts)
  rw [toList_eq_intercalate path, hsegments]
  rw [components_of_segments_eq_cons hsegments] at h
  cases cs with
  | nil => exact List.nil_sublist _
  | cons c cs =>
      -- the cases are those of the first segment: nothing, a dot, or anything else
      split at h
      · next hempty =>
          split at h
          · cases List.prefix_nil.mp h
          · next hrest =>
              obtain ⟨rfl, hcs⟩ := List.cons_prefix_cons.mp h
              have hof : (ofComponents (.root :: cs)).toList =
                  [] ++ ['/'] ++ ("/".intercalate (cs.map (·.text))).toList := by
                rw [ofComponents, String.toList_append]
                rfl
              rw [hof, hempty, List.map_cons,
                List.intercalate_cons_of_ne_nil (by simpa using hrest), String.toList_intercalate]
              exact (List.Sublist.refl _).append (sublist_intercalate ((htexts hcs).map _))
      · split at h
        · next hdot =>
            obtain ⟨rfl, hcs⟩ := List.cons_prefix_cons.mp h
            rw [ofComponents_cons (by simp), hdot, String.toList_intercalate]
            exact sublist_intercalate (((htexts hcs).cons_cons ".").map _)
        · have hroot : c ≠ .root := by
            rintro rfl
            obtain ⟨segment, -, hsegment⟩ := List.mem_filterMap.mp (h.subset List.mem_cons_self)
            exact component?_ne_root segment hsegment
          rw [ofComponents_cons hroot, String.toList_intercalate]
          exact sublist_intercalate ((htexts h).map _)

theorem exists_component?_eq {segment : String} (hempty : segment ≠ "") (hdot : segment ≠ ".") :
    ∃ c, component? segment = some c := by
  rw [component?, if_neg (not_or.mpr ⟨hempty, hdot⟩)]
  split
  · exact ⟨_, rfl⟩
  · exact ⟨_, rfl⟩

theorem components_ne_nil {path : String} (h : path ≠ "") : components path ≠ [] := by
  obtain ⟨first, rest, hsegments⟩ := List.exists_cons_of_ne_nil (segments_ne_nil path)
  rw [components_of_segments_eq_cons hsegments]
  split
  · next hempty =>
      split
      · next hrest =>
          refine absurd (String.toList_eq_nil_iff.mp ?_) h
          rw [toList_eq_intercalate, hsegments, hempty, hrest]
          rfl
      · exact List.cons_ne_nil _ _
  · next hempty =>
      split
      · exact List.cons_ne_nil _ _
      · next hdot =>
          obtain ⟨c, hc⟩ := exists_component?_eq hempty hdot
          rw [List.filterMap_cons, hc]
          exact List.cons_ne_nil _ _

/-- The last segment of a path that ends with a name. -/
theorem lastSegment?_of_components {path name : String} {parent : List Component}
    (hcomponents : components path = parent ++ [.name name])
    (hfile : requiresDirectory path = false) : lastSegment? path = some name := by
  rw [requiresDirectory, Bool.or_eq_false_iff] at hfile
  obtain ⟨hslash, hdot⟩ := hfile
  obtain ⟨front, last, hsegments⟩ :=
    (List.eq_nil_or_concat' (segments path)).resolve_left (segments_ne_nil path)
  have hempty : last ≠ "" := by
    rintro rfl
    by_cases hfront : front = []
    · subst hfront
      rw [components_of_segments_eq_cons hsegments] at hcomponents
      simp at hcomponents
    · simp [endsWithSlash_of_segments_eq hsegments hfront] at hslash
  have hlast : lastSegment? path = some last := by
    simp [lastSegment?, hsegments, hempty]
  have hne : last ≠ "." := by
    rintro rfl
    simp [hlast] at hdot
  obtain ⟨c, hc⟩ := exists_component?_eq hempty hne
  obtain ⟨parent', hparent'⟩ := exists_components_eq_concat_of_segments hsegments hc
  obtain ⟨-, hcs⟩ := List.append_inj' (hparent'.symm.trans hcomponents) rfl
  rw [hlast, ← text_of_component? hc, List.head_eq_of_cons_eq hcs]
  rfl

/-- Only a plain name is the last component of a path. -/
theorem isPlain_of_components {path name : String} {parent : List Component}
    (h : components path = parent ++ [.name name]) : (Component.name name).IsPlain := by
  obtain ⟨front, rest, heq, hfront, hrest⟩ := exists_components_eq path
  have hmem : Component.name name ∈ front ++ rest := by
    rw [← heq, h]
    simp
  rcases List.mem_append.mp hmem with hmem | hmem
  · rcases hfront with rfl | rfl | rfl <;> simp at hmem
  · exact hrest _ hmem

end Path

namespace Tree

theorem screen_eq_ok_iff {path : String} :
    screen path = .ok () ↔
      Path.hasNul path = false ∧ Path.isLong path = false ∧ path ≠ "" := by
  unfold screen
  split
  · next h => simp [h]
  · next hnul =>
      split
      · next h => simp [h]
      · next hlong => simp [hnul, hlong]

/-- The system looks at the directory of a path if it looks at the path. -/
theorem screen_directory {path : String} {parent : List Component} {last : Component}
    (hcomponents : Path.components path = parent ++ [last]) (h : screen path = .ok ()) :
    screen (Path.directory path) = .ok () := by
  by_cases hnil : parent = []
  · rw [Path.directory_eq hcomponents, if_pos hnil]
    rfl
  · have hne : Path.directory path ≠ "" := by
      intro hempty
      have hparent := Path.components_directory hcomponents hnil
      rw [hempty] at hparent
      exact hnil hparent.symm
    have hsublist : (Path.directory path).toList.Sublist path.toList := by
      rw [Path.directory_eq hcomponents, if_neg hnil]
      exact Path.toList_ofComponents_sublist ⟨[last], hcomponents.symm⟩
    have hsize : (Path.directory path).utf8ByteSize ≤ path.utf8ByteSize := by
      rw [← String.utf8Len_toList, ← String.utf8Len_toList]
      exact String.utf8Len_le_of_sublist hsublist
    obtain ⟨hnul, hlong, -⟩ := screen_eq_ok_iff.mp h
    refine screen_eq_ok_iff.mpr ⟨?_, ?_, hne⟩
    · simp only [Path.hasNul, List.contains_eq_mem, decide_eq_false_iff_not] at hnul ⊢
      exact fun hmem => hnul (hsublist.subset hmem)
    · simp only [Path.isLong, decide_eq_false_iff_not, not_le] at hlong ⊢
      omega

theorem directoryAt_directory {t : Tree} {path : String} {parent : List Component}
    {last : Component} {directory : Location}
    (hcomponents : Path.components path = parent ++ [last]) (hscreen : screen path = .ok ())
    (hwalk : t.walk t.here parent = .ok directory)
    (hnode : t.node? directory = some .directory) :
    t.directoryAt (Path.directory path) = .ok directory := by
  refine directoryAt_eq_ok_iff.mpr ⟨screen_directory hcomponents hscreen, ?_, hnode⟩
  by_cases hnil : parent = []
  · subst hnil
    cases hwalk
    rw [LeadsTo, Path.directory_eq hcomponents, if_pos rfl]
    exact walk_cons_eq_ok_iff.mpr ⟨hnode, rfl, rfl⟩
  · rw [LeadsTo, Path.components_directory hcomponents hnil]
    exact hwalk

theorem Admits.directoryAt_eq {t : Tree} {path : String} {location : Location}
    (h : t.Admits path location) :
    t.directoryAt (Path.directory path) = .ok location.dropLast := by
  obtain ⟨parent, name, directory, hcomponents, hwalk, hnode, -, rfl⟩ := h.exists_directory
  rw [List.dropLast_concat]
  exact directoryAt_directory hcomponents h.screened hwalk hnode

theorem Admits.target_eq {t : Tree} {path : String} {location : Location}
    (h : t.Admits path location) (slash dots : SystemFault) :
    t.target path slash dots = .ok location := by
  have hdirectory := h.directoryAt_eq
  obtain ⟨parent, name, directory, hcomponents, -, -, hlong, rfl⟩ := h.exists_directory
  have hlast := Path.lastSegment?_of_components hcomponents h.of_file
  have hslash : Path.endsWithSlash path = false := (Bool.or_eq_false_iff.mp h.of_file).1
  obtain ⟨-, hdot, hdots, -⟩ := Path.isPlain_of_components hcomponents
  rw [List.dropLast_concat] at hdirectory
  refine bind_eq_ok_iff.mpr ⟨(), h.screened, ?_⟩
  simp only [hlast]
  rw [if_neg (not_or.mpr ⟨hdot, hdots⟩)]
  refine bind_eq_ok_iff.mpr ⟨directory, hdirectory, ?_⟩
  simp only [hslash, hlong, Bool.false_eq_true, if_false]
  split
  · next hnode => exact absurd hnode h.not_directory
  · rfl

/-- Replacing succeeds exactly if the path admits a file. -/
theorem replaceBytes_eq_ok_iff {t t' : Tree} {path : String} {bytes : ByteArray} :
    t.replaceBytes path bytes = .ok t' ↔
      ∃ location, t.Admits path location ∧ t' = t.put location (.file bytes) := by
  refine ⟨exists_admits_of_replaceBytes, ?_⟩
  rintro ⟨location, hadmits, rfl⟩
  unfold replaceBytes
  simp only [hadmits.directoryAt_eq, hadmits.target_eq]

/-! ### A file beside another -/

def erase (t : Tree) (location : Location) : Tree :=
  { t with nodes := t.nodes.filter fun entry => entry.1 ≠ location }

/-- Moves what is at a location to where a path leads, over a file that is there. -/
def rename (t : Tree) (source : Location) (path : String) : Except SystemFault Tree := do
  let slash :=
    if (Path.lastSegment? path).any Path.isLongName then SystemFault.nameTooLong
    else .notDirectory
  let location ← t.target path slash .busy
  match t.node? source with
  | some node => return (t.erase source).put location node
  | none => .error .notFound

/-- Replaces a file step by step. A file with a name of its own is made in the directory of
the path. It is moved to where the path leads, or removed if it cannot be moved. -/
def replaceBeside (spare : String) (t : Tree) (path : String) (bytes : ByteArray) :
    Except ReplaceFault Unit × Tree :=
  match t.directoryAt (Path.directory path) with
  | .error f => (.error (.create f), t)
  | .ok directory =>
      let beside := directory ++ [spare]
      let made := t.put beside (.file bytes)
      match made.rename beside path with
      | .error f => (.error (.persist f), made.erase beside)
      | .ok t' => (.ok (), t')

/-- A name that a file beside a path can have: nothing has it in the directory of the path,
and the path does not have it either. -/
structure Spares (t : Tree) (path spare : String) : Prop where
  unused : ∀ directory, t.directoryAt (Path.directory path) = .ok directory →
    t.node? (directory ++ [spare]) = none
  not_mem : .name spare ∉ Path.components path

theorem node?_eq_none_iff {t : Tree} {location : Location} :
    t.node? location = none ↔ location ≠ [] ∧ ∀ entry ∈ t.nodes, entry.1 ≠ location := by
  cases location with
  | nil => simp [node?]
  | cons name rest =>
      have hlookup : t.node? (name :: rest) = t.nodes.lookup (name :: rest) := rfl
      simp only [hlookup, List.lookup_eq_none_iff, bne_iff_ne, ne_eq, reduceCtorEq,
        not_false_eq_true, true_and]
      exact forall₂_congr fun entry _ => not_congr eq_comm

theorem putNode_of_forall_ne {location : Location} {nodes : List (Location × Node)}
    (h : ∀ entry ∈ nodes, entry.1 ≠ location) (node : Node) :
    putNode location node nodes = nodes ++ [(location, node)] := by
  induction nodes with
  | nil => rfl
  | cons entry nodes ih =>
      obtain ⟨hentry, hnodes⟩ := List.forall_mem_cons.mp h
      rw [putNode, if_neg hentry, ih hnodes, List.cons_append]

/-- What is put where nothing was can be taken away again. -/
theorem erase_put {t : Tree} {location : Location} (h : t.node? location = none) (node : Node) :
    (t.put location node).erase location = t := by
  obtain ⟨-, hne⟩ := node?_eq_none_iff.mp h
  have hkept : t.nodes.filter (fun entry => entry.1 ≠ location) = t.nodes :=
    List.filter_eq_self.mpr fun entry hentry => decide_eq_true (hne entry hentry)
  have hnodes : (putNode location node t.nodes).filter (fun entry => entry.1 ≠ location) =
      t.nodes := by
    rw [putNode_of_forall_ne hne, List.filter_append, hkept]
    simp
  rw [erase, put, hnodes]

theorem exists_spares (t : Tree) (path : String) : ∃ spare, t.Spares path spare := by
  let used := t.nodes.filterMap (·.1.getLast?) ++ (Path.components path).map (·.text)
  have hnew := Header.fresh_not_mem used "spare" 0
  rw [List.mem_append, not_or] at hnew
  refine ⟨Header.fresh used "spare" 0, fun directory _ => ?_, fun hmem => ?_⟩
  · refine node?_eq_none_iff.mpr ⟨by simp, fun entry hentry heq => hnew.1 ?_⟩
    exact List.mem_filterMap.mpr ⟨entry, hentry, by rw [heq, List.getLast?_concat]⟩
  · exact hnew.2 (List.mem_map.mpr ⟨_, hmem, rfl⟩)

theorem walk_append {t : Tree} {location mid : Location} {before : List Component}
    (h : t.walk location before = .ok mid) (after : List Component) :
    t.walk location (before ++ after) = t.walk mid after := by
  induction before generalizing location with
  | nil =>
      cases h
      rfl
  | cons c before ih =>
      obtain ⟨hnode, hlong, hrest⟩ := walk_cons_eq_ok_iff.mp h
      rw [List.cons_append, walk, hnode]
      simp only [hlong, Bool.false_eq_true, if_false]
      exact ih hrest

theorem walk_singleton {t : Tree} {location : Location} (h : t.node? location = some .directory)
    (c : Component) :
    t.walk location [c] = if tooLong c then .error .nameTooLong else .ok (next location c) := by
  rw [walk, h]
  rfl

theorem next_ne_concat {location : Location} {c : Component} {name : String}
    (h : c ≠ .name name) : next location c ≠ location ++ [name] := by
  intro heq
  have hlength := congrArg List.length heq
  cases c with
  | root => simp [next] at heq
  | here => simp [next] at heq
  | up =>
      simp only [next, List.length_dropLast, List.length_append, List.length_singleton] at hlength
      omega
  | name n =>
      simp only [next, List.append_cancel_left_eq, List.cons.injEq, and_true] at heq
      exact h (by rw [heq])

namespace Spares

variable {t : Tree} {path spare : String} {directory : Location} (h : t.Spares path spare)
  (hdirectory : t.directoryAt (Path.directory path) = .ok directory)
include h hdirectory

theorem node?_put_of_directory (bytes : ByteArray) {other : Location}
    (hother : t.node? other = some .directory) :
    (t.put (directory ++ [spare]) (.file bytes)).node? other = some .directory := by
  rw [node?_put t (by simp), if_neg, hother]
  rintro rfl
  rw [h.unused directory hdirectory] at hother
  cases hother

/-- The directory is found in the same way with the file in it. -/
theorem directoryAt_put (bytes : ByteArray) :
    (t.put (directory ++ [spare]) (.file bytes)).directoryAt (Path.directory path) =
      .ok directory := by
  obtain ⟨hscreen, hleads, hnode⟩ := directoryAt_eq_ok_iff.mp hdirectory
  exact directoryAt_eq_ok_iff.mpr
    ⟨hscreen, walk_mono (fun _ => h.node?_put_of_directory hdirectory bytes) hleads,
      h.node?_put_of_directory hdirectory bytes hnode⟩

/-- The path leads to the same with the file beside it. -/
theorem lookup_put (bytes : ByteArray) (hne : path ≠ "") :
    (t.put (directory ++ [spare]) (.file bytes)).lookup path = t.lookup path := by
  obtain ⟨parent, last, hcomponents⟩ :=
    (List.eq_nil_or_concat' (Path.components path)).resolve_left (Path.components_ne_nil hne)
  obtain ⟨-, -, hnode⟩ := directoryAt_eq_ok_iff.mp hdirectory
  have hdirectories {other : Location} (hother : t.node? other = some .directory) :
      (t.put (directory ++ [spare]) (.file bytes)).node? other = some .directory :=
    h.node?_put_of_directory hdirectory bytes hother
  have hparent := walk_of_directoryAt hcomponents hdirectory
  have hwalk : (t.put (directory ++ [spare]) (.file bytes)).walk t.here
      (Path.components path) = t.walk t.here (Path.components path) := by
    rw [hcomponents, walk_append hparent, walk_append (walk_mono (fun _ => hdirectories) hparent),
      walk_singleton hnode, walk_singleton (hdirectories hnode)]
  have hlast : last ≠ .name spare := by
    rintro rfl
    exact h.not_mem (by simp [hcomponents])
  have hput : (t.put (directory ++ [spare]) (.file bytes)).node? (next directory last) =
      t.node? (next directory last) := by
    rw [node?_put t (by simp), if_neg (next_ne_concat hlast)]
  have hhere : (t.put (directory ++ [spare]) (.file bytes)).here = t.here := rfl
  rw [lookup, lookup, hhere, hwalk, hcomponents, walk_append hparent, walk_singleton hnode]
  refine bind_congr fun _ => ?_
  split
  · rfl
  · simp only [bind, Except.bind, hput]

/-- The file beside a path does not change where a file would be put. -/
theorem target_put (bytes : ByteArray) (slash dots : SystemFault) :
    (t.put (directory ++ [spare]) (.file bytes)).target path slash dots =
      t.target path slash dots := by
  rw [target, target, h.directoryAt_put hdirectory, hdirectory]
  cases hscreen : screen path with
  | error f => rfl
  | ok _ =>
      obtain ⟨-, -, hne⟩ := screen_eq_ok_iff.mp hscreen
      rw [h.lookup_put hdirectory bytes hne]
      cases hlast : Path.lastSegment? path with
      | none => rfl
      | some segment =>
          simp only [bind, Except.bind]
          by_cases hdots : segment = "." ∨ segment = ".."
          · rw [if_pos hdots, if_pos hdots]
          · rw [if_neg hdots, if_neg hdots]
            cases hslash : Path.endsWithSlash path with
            | true => rfl
            | false =>
                obtain ⟨hdot, hdots⟩ := not_or.mp hdots
                obtain ⟨parent, hcomponents⟩ :=
                  Path.exists_components_eq_concat hlast hslash hdot hdots
                have hsegment : segment ≠ spare := by
                  rintro rfl
                  exact h.not_mem (by simp [hcomponents])
                have hnode : (t.put (directory ++ [spare]) (.file bytes)).node?
                    (directory ++ [segment]) = t.node? (directory ++ [segment]) := by
                  rw [node?_put t (by simp), if_neg (by simpa using hsegment)]
                rw [hnode]

end Spares

theorem run_updating_of_ok {ε : Type} {f : Tree → Except ε Tree} {t t' : Tree}
    (h : f t = .ok t') : (updating f).run t = (.ok (), t') := by
  simp only [updating, StateT.run, h]

theorem run_updating_of_error {ε : Type} {f : Tree → Except ε Tree} {t : Tree} {e : ε}
    (h : f t = .error e) : (updating f).run t = (.error e, t) := by
  simp only [updating, StateT.run, h]

/-- The steps end as the replacement does, and leave the tree that it leaves. -/
theorem replaceBeside_eq {t : Tree} {path spare : String} (h : t.Spares path spare)
    (bytes : ByteArray) :
    replaceBeside spare t path bytes = (updating (·.replaceBytes path bytes)).run t := by
  unfold replaceBeside
  cases hdirectory : t.directoryAt (Path.directory path) with
  | error f =>
      refine (run_updating_of_error ?_).symm
      unfold replaceBytes
      simp only [hdirectory]
  | ok directory =>
      have herase := erase_put (h.unused directory hdirectory) (.file bytes)
      have hnode : (t.put (directory ++ [spare]) (.file bytes)).node? (directory ++ [spare]) =
          some (.file bytes) := by
        rw [node?_put t (by simp), if_pos rfl]
      simp only [rename, h.target_put hdirectory, hnode, herase]
      -- both ends are those of putting the file where the path leads
      cases htarget : t.target path _ .busy with
      | error f =>
          refine (run_updating_of_error ?_).symm
          unfold replaceBytes
          simp only [hdirectory, htarget]
      | ok location =>
          refine (run_updating_of_ok ?_).symm
          unfold replaceBytes
          simp only [hdirectory, htarget]

/-! ### What a replaced file leaves alone -/

namespace Admits

variable {t : Tree} {path : String} {location : Location} (h : t.Admits path location)
include h

theorem node?_put_eq_directory_iff (bytes : ByteArray) {other : Location} :
    (t.put location (.file bytes)).node? other = some .directory ↔
      t.node? other = some .directory := by
  rw [node?_put t h.ne_root]
  by_cases hother : other = location
  · subst hother
    rw [if_pos rfl]
    exact iff_of_false (by simp) h.not_directory
  · rw [if_neg hother]

/-- Every path leads where it led, since a walk sees directories only. -/
theorem leadsTo_put_iff (bytes : ByteArray) {other : String} {location' : Location} :
    (t.put location (.file bytes)).LeadsTo other location' ↔ t.LeadsTo other location' :=
  ⟨walk_mono fun _ => (h.node?_put_eq_directory_iff bytes).mp,
    walk_mono fun _ => (h.node?_put_eq_directory_iff bytes).mpr⟩

end Admits

end Tree

/-! ### Replacements in turn -/

/-- A replacement: what it was asked for, how it ended, and the trees around it. -/
structure Replacement where
  path : String
  bytes : ByteArray
  before : Tree
  result : Except ReplaceFault Unit
  after : Tree

namespace Replacement

def of (path : String) (bytes : ByteArray) (t : Tree) : Replacement where
  path := path
  bytes := bytes
  before := t
  result := ((updating (·.replaceBytes path bytes)).run t).1
  after := ((updating (·.replaceBytes path bytes)).run t).2

/-- A replacement succeeds, and its path leads to a location. -/
def Writes (r : Replacement) (location : Location) : Prop :=
  r.result = .ok () ∧ r.before.LeadsTo r.path location

/-- A replacement gives the file of its path the bytes and changes nothing else, or it
changes nothing at all. -/
structure AllOrNothing (r : Replacement) : Prop where
  /-- It succeeds exactly if the path admits a file. -/
  ok_iff : r.result = .ok () ↔ ∃ location, r.before.Admits r.path location
  /-- The location of the path holds the bytes, and every other one what it held. -/
  node?_of_writes : ∀ location, r.Writes location → ∀ other,
    r.after.node? other =
      if other = location then some (.file r.bytes) else r.before.node? other
  lookup_of_ok : r.result = .ok () → r.after.lookup r.path = .ok (.file r.bytes)
  unchanged_of_error : ∀ f, r.result = .error f → r.after = r.before
  here_eq : r.after.here = r.before.here
  /-- No directory has come or gone. -/
  directory_iff : ∀ location,
    r.after.node? location = some .directory ↔ r.before.node? location = some .directory
  /-- Every path leads where it led. -/
  leadsTo_iff : ∀ path location, r.after.LeadsTo path location ↔ r.before.LeadsTo path location
  exists_spares : ∃ spare, r.before.Spares r.path spare
  /-- By way of a file beside it, it ends in the same way and leaves the same tree. -/
  replaceBeside_eq : ∀ spare, r.before.Spares r.path spare →
    Tree.replaceBeside spare r.before r.path r.bytes = (r.result, r.after)

theorem run_eq (path : String) (bytes : ByteArray) (t : Tree) :
    (updating (·.replaceBytes path bytes)).run t =
      ((of path bytes t).result, (of path bytes t).after) := by
  simp only [of, Prod.mk.eta]

theorem of_eq_of_error {t : Tree} {path : String} {bytes : ByteArray} {f : ReplaceFault}
    (h : t.replaceBytes path bytes = .error f) :
    of path bytes t = ⟨path, bytes, t, .error f, t⟩ := by
  rw [of, Tree.run_updating_of_error (f := fun t => t.replaceBytes path bytes) h]

theorem of_eq_of_ok {t t' : Tree} {path : String} {bytes : ByteArray}
    (h : t.replaceBytes path bytes = .ok t') :
    of path bytes t = ⟨path, bytes, t, .ok (), t'⟩ := by
  rw [of, Tree.run_updating_of_ok (f := fun t => t.replaceBytes path bytes) h]

theorem allOrNothing_of (path : String) (bytes : ByteArray) (t : Tree) :
    (of path bytes t).AllOrNothing := by
  have hbeside (spare : String) (h : t.Spares path spare) :
      Tree.replaceBeside spare t path bytes =
        ((of path bytes t).result, (of path bytes t).after) := by
    rw [Tree.replaceBeside_eq h, run_eq]
  cases hreplace : t.replaceBytes path bytes with
  | error f =>
      rw [of_eq_of_error hreplace] at hbeside ⊢
      have hadmits : ¬ ∃ location, t.Admits path location := by
        rintro ⟨location, hadmits⟩
        cases hreplace.symm.trans (Tree.replaceBytes_eq_ok_iff.mpr ⟨location, hadmits, rfl⟩)
      exact {
        ok_iff := iff_of_false (by simp) hadmits
        node?_of_writes := fun location h => by cases h.1
        lookup_of_ok := fun h => by cases h
        unchanged_of_error := fun _ _ => rfl
        here_eq := rfl
        directory_iff := fun _ => Iff.rfl
        leadsTo_iff := fun _ _ => Iff.rfl
        exists_spares := t.exists_spares path
        replaceBeside_eq := hbeside }
  | ok t' =>
      rw [of_eq_of_ok hreplace] at hbeside ⊢
      obtain ⟨location, hadmits, rfl⟩ := Tree.replaceBytes_eq_ok_iff.mp hreplace
      exact {
        ok_iff := iff_of_true rfl ⟨location, hadmits⟩
        node?_of_writes := fun location' h => by
          obtain rfl := hadmits.leadsTo.unique h.2
          exact Tree.node?_put t hadmits.ne_root _
        lookup_of_ok := fun _ => hadmits.lookup_put bytes
        unchanged_of_error := fun f h => by cases h
        here_eq := rfl
        directory_iff := fun _ => hadmits.node?_put_eq_directory_iff bytes
        leadsTo_iff := fun _ _ => hadmits.leadsTo_put_iff bytes
        exists_spares := t.exists_spares path
        replaceBeside_eq := hbeside }

/-- A replacement changes only the location that it writes. -/
theorem AllOrNothing.node?_eq {r : Replacement} (h : r.AllOrNothing) {location : Location}
    (hwrites : ¬ r.Writes location) : r.after.node? location = r.before.node? location := by
  cases hresult : r.result with
  | error f => rw [h.unchanged_of_error f hresult]
  | ok _ =>
      obtain ⟨location', hadmits⟩ := h.ok_iff.mp hresult
      rw [h.node?_of_writes location' ⟨hresult, hadmits.leadsTo⟩, if_neg]
      rintro rfl
      exact hwrites ⟨hresult, hadmits.leadsTo⟩

end Replacement

/-- Replacements in turn, each on the tree that the one before left. -/
def replacements : Tree → List (String × ByteArray) → List Replacement
  | _, [] => []
  | t, (path, bytes) :: calls =>
      .of path bytes t :: replacements (Replacement.of path bytes t).after calls

/-- The tree that replacements leave in the end. -/
def afterReplacements (t : Tree) (calls : List (String × ByteArray)) : Tree :=
  calls.foldl (fun t call => (Replacement.of call.1 call.2 t).after) t

section Sequences

variable {t : Tree} {calls : List (String × ByteArray)} {location : Location}

theorem afterReplacements_cons (call : String × ByteArray) :
    afterReplacements t (call :: calls) =
      afterReplacements (Replacement.of call.1 call.2 t).after calls :=
  List.foldl_cons

theorem allOrNothing_of_mem_replacements {r : Replacement} (h : r ∈ replacements t calls) :
    r.AllOrNothing := by
  induction calls generalizing t with
  | nil => cases h
  | cons call calls ih =>
      rcases List.mem_cons.mp h with rfl | h
      · exact Replacement.allOrNothing_of call.1 call.2 t
      · exact ih h

/-- What no replacement writes is as it was at the start. -/
theorem node?_afterReplacements (h : ∀ r ∈ replacements t calls, ¬ r.Writes location) :
    (afterReplacements t calls).node? location = t.node? location := by
  induction calls generalizing t with
  | nil => rfl
  | cons call calls ih =>
      obtain ⟨hfirst, hrest⟩ := List.forall_mem_cons.mp h
      rw [afterReplacements_cons, ih hrest]
      exact (Replacement.allOrNothing_of call.1 call.2 t).node?_eq hfirst

/-- What was written last is there in the end. -/
theorem node?_afterReplacements_of_last {earlier later : List Replacement} {r : Replacement}
    (hsplit : replacements t calls = earlier ++ r :: later) (hwrites : r.Writes location)
    (hlater : ∀ r' ∈ later, ¬ r'.Writes location) :
    (afterReplacements t calls).node? location = some (.file r.bytes) := by
  induction calls generalizing t earlier with
  | nil => simp [replacements] at hsplit
  | cons call calls ih =>
      cases earlier with
      | nil =>
          obtain ⟨rfl, rfl⟩ := List.cons.inj hsplit
          have hall := Replacement.allOrNothing_of call.1 call.2 t
          rw [afterReplacements_cons, node?_afterReplacements hlater,
            hall.node?_of_writes location hwrites, if_pos rfl]
      | cons first earlier =>
          rw [afterReplacements_cons]
          exact ih (List.cons.inj hsplit).2

theorem node?_afterReplacements_eq_directory_iff :
    (afterReplacements t calls).node? location = some .directory ↔
      t.node? location = some .directory := by
  induction calls generalizing t with
  | nil => rfl
  | cons call calls ih =>
      rw [afterReplacements_cons, ih]
      exact (Replacement.allOrNothing_of call.1 call.2 t).directory_iff location

theorem leadsTo_afterReplacements_iff {path : String} :
    (afterReplacements t calls).LeadsTo path location ↔ t.LeadsTo path location := by
  induction calls generalizing t with
  | nil => rfl
  | cons call calls ih =>
      rw [afterReplacements_cons, ih]
      exact (Replacement.allOrNothing_of call.1 call.2 t).leadsTo_iff path location

end Sequences

/-- Replacing files is all or nothing over every sequence, and what the disk of a tree does
is such a replacement. In the end a location holds what was last written to it, or what it
held at the start if nothing was. No directory has come or gone, and every path leads where
it led. -/
theorem replacements_all_or_nothing (t : Tree) (calls : List (String × ByteArray)) :
    (∀ r ∈ replacements t calls, r.AllOrNothing) ∧
    (∀ path text : String,
      (Disk.replace path text : StateM Tree (Except ReplaceFault Unit)).run t =
        ((Replacement.of path text.toUTF8 t).result, (Replacement.of path text.toUTF8 t).after)) ∧
    (∀ location, (∀ r ∈ replacements t calls, ¬ r.Writes location) →
      (afterReplacements t calls).node? location = t.node? location) ∧
    (∀ location earlier r later, replacements t calls = earlier ++ r :: later →
      r.Writes location → (∀ r' ∈ later, ¬ r'.Writes location) →
        (afterReplacements t calls).node? location = some (.file r.bytes)) ∧
    (∀ location, (afterReplacements t calls).node? location = some .directory ↔
      t.node? location = some .directory) ∧
    ∀ path location, (afterReplacements t calls).LeadsTo path location ↔ t.LeadsTo path location :=
  ⟨fun _ => allOrNothing_of_mem_replacements,
    fun path text => (congrArg (·.run t) (replace_eq_updating path text)).trans
      (Replacement.run_eq path text.toUTF8 t),
    fun _ => node?_afterReplacements,
    fun _ _ _ _ => node?_afterReplacements_of_last,
    fun _ => node?_afterReplacements_eq_directory_iff, fun _ _ => leadsTo_afterReplacements_iff⟩

/-- Two spellings of one path, a path in a directory that is not there, and one below a
file. -/
def sampleCalls : List (String × ByteArray) :=
  [("out.h", "first".toUTF8), ("gone/out.h", "second".toUTF8), ("./out.h", "third".toUTF8),
    ("a.rules/out.h", "fourth".toUTF8)]

theorem replacements_all_or_nothing_sampleTree :
    (replacements sampleTree sampleCalls).map (·.result) =
        [.ok (), .error (.create .notFound), .ok (), .error (.create .notDirectory)] ∧
      (afterReplacements sampleTree sampleCalls).node? ["out.h"] =
        some (.file "third".toUTF8) ∧
      (afterReplacements sampleTree sampleCalls).node? ["a.rules"] =
        sampleTree.node? ["a.rules"] := by
  obtain ⟨-, -, hunwritten, hlast, -, -⟩ := replacements_all_or_nothing sampleTree sampleCalls
  have hsplit : replacements sampleTree sampleCalls =
      (replacements sampleTree sampleCalls).take 2 ++
        (replacements sampleTree sampleCalls).drop 2 :=
    (List.take_append_drop 2 _).symm
  refine ⟨rfl, ?written, ?unwritten⟩
  case written =>
    refine hlast ["out.h"] _ _ _ hsplit ⟨rfl, rfl⟩ fun r hr hwrites => ?_
    rw [List.mem_singleton.mp hr] at hwrites
    cases hwrites.1
  case unwritten =>
    refine hunwritten ["a.rules"] ?_
    have hother {r : Replacement} (hleads : r.before.LeadsTo r.path ["out.h"]) :
        ¬ r.Writes ["a.rules"] :=
      fun hwrites => absurd (hleads.unique hwrites.2) (by decide)
    have hfailed {r : Replacement} {f : ReplaceFault} (hresult : r.result = .error f) :
        ¬ r.Writes ["a.rules"] :=
      fun hwrites => nomatch hresult.symm.trans hwrites.1
    refine List.forall_mem_cons.mpr ⟨hother rfl, ?_⟩
    refine List.forall_mem_cons.mpr ⟨hfailed rfl, ?_⟩
    refine List.forall_mem_cons.mpr ⟨hother rfl, ?_⟩
    exact List.forall_mem_singleton.mpr (hfailed rfl)

end BreakRules
