import BreakRules.Disk.Tree
import BreakRules.Proofs.Grammar
import Mathlib.Data.List.Basic

/-!
# Where a file is put

A file is written by way of the directory of its path: the last component is cut
off, the rest is written as a path again and looked up, and the last segment is
put behind the location found. `Tree.Admits` says what is known of the location
when this succeeds. It is the one that the whole path leads to, and it holds no
directory. So what was written is what the path leads to afterwards, and nothing
else has changed: `Tree.Admits.written`.

That a path can be cut and written again rests on the components of a path being
in a normal form, in which only the first may be the root or a dot:
`Path.components_ofComponents`.
-/

namespace BreakRules

/-! ### Components -/

namespace Component

/-- The components that stand for a segment of their own at any place in a path. -/
def IsPlain : Component → Prop
  | root => False
  | here => False
  | up => True
  | name n => n ≠ "" ∧ n ≠ "." ∧ n ≠ ".." ∧ '/' ∉ n.toList

namespace IsPlain

variable {c : Component} (h : c.IsPlain)
include h

theorem component?_text : Path.component? c.text = some c := by
  cases c with
  | root => cases h
  | here => cases h
  | up => rfl
  | name n =>
      obtain ⟨hempty, hdot, hdots, -⟩ := h
      simp [Path.component?, text, hempty, hdot, hdots]

theorem slash_not_mem : '/' ∉ c.text.toList := by
  cases c with
  | root => cases h
  | here => cases h
  | up => decide
  | name n => exact h.2.2.2

theorem text_ne : c.text ≠ "" ∧ c.text ≠ "." := by
  cases c with
  | root => cases h
  | here => cases h
  | up => decide
  | name n => exact ⟨h.1, h.2.1⟩

end IsPlain

end Component

namespace Path

theorem segments_ne_nil (path : String) : segments path ≠ [] := by
  simp [segments, List.splitOn_ne_nil]

theorem slash_not_mem_of_mem_segments {path segment : String} (h : segment ∈ segments path) :
    '/' ∉ segment.toList := by
  obtain ⟨chars, hchars, rfl⟩ := List.mem_map.mp h
  obtain ⟨first, rest, heq, -, -, hfree⟩ :=
    Text.exists_splitOnP_eq_cons (· == '/') path.toList
  rw [String.toList_ofList]
  intro hslash
  simpa using hfree chars (heq ▸ hchars) '/' hslash

theorem segments_intercalate {parts : List String} (hne : parts ≠ [])
    (h : ∀ part ∈ parts, '/' ∉ part.toList) : segments ("/".intercalate parts) = parts := by
  have hslash : "/".toList = ['/'] := rfl
  rw [segments, String.toList_intercalate, hslash, List.splitOn_intercalate, List.map_map]
  · simp [Function.comp_def]
  · simpa using h
  · simpa using hne

theorem segments_slash_append (rest : String) : segments ("/" ++ rest) = "" :: segments rest := by
  have hslash : ("/" ++ rest).toList = [] ++ '/' :: rest.toList := by
    rw [String.toList_append]
    rfl
  rw [segments, hslash, List.splitOn_append_cons_self_of_not_mem (by simp)]
  rfl

theorem isPlain_of_component? {segment : String} {c : Component}
    (hslash : '/' ∉ segment.toList) (h : component? segment = some c) : c.IsPlain := by
  unfold component? at h
  split at h
  · cases h
  · next hne =>
      split at h
      · cases h
        trivial
      · next hdots =>
          cases h
          exact ⟨fun he => hne (.inl he), fun he => hne (.inr he), hdots, hslash⟩

/-- The components of a path by its first segment. -/
theorem components_of_segments_eq_cons {path first : String} {rest : List String}
    (h : segments path = first :: rest) :
    components path =
      if first = "" then (if rest = [] then [] else .root :: rest.filterMap component?)
      else if first = "." then .here :: rest.filterMap component?
      else (first :: rest).filterMap component? := by
  unfold components
  rw [h]
  split
  · next heq => cases heq
  · next heq =>
      cases heq
      rfl
  · next rest' hrest heq =>
      cases heq
      rw [if_pos rfl, if_neg]
      rintro rfl
      exact hrest rfl
  · next rest' heq =>
      cases heq
      rfl
  · next hempty hfirst hdot =>
      rw [if_neg, if_neg]
      · rintro rfl
        exact hdot rest rfl
      · rintro rfl
        cases rest with
        | nil => exact hempty rfl
        | cons segment rest => exact hfirst _ rfl

/-- Only the first component of a path can be the root or a dot. -/
theorem exists_components_eq (path : String) :
    ∃ front rest, components path = front ++ rest ∧
      (front = [] ∨ front = [.root] ∨ front = [.here]) ∧ ∀ c ∈ rest, c.IsPlain := by
  obtain ⟨first, rest, hsegments⟩ := List.exists_cons_of_ne_nil (segments_ne_nil path)
  have hplain : ∀ segments' : List String, segments' ⊆ segments path →
      ∀ c ∈ segments'.filterMap component?, c.IsPlain := by
    intro segments' hsub c hc
    obtain ⟨segment, hsegment, hcomponent⟩ := List.mem_filterMap.mp hc
    exact isPlain_of_component? (slash_not_mem_of_mem_segments (hsub hsegment)) hcomponent
  have hrest : rest ⊆ segments path := by simp [hsegments]
  rw [components_of_segments_eq_cons hsegments]
  split
  · split
    · exact ⟨[], [], rfl, .inl rfl, by simp⟩
    · exact ⟨[.root], _, rfl, .inr (.inl rfl), hplain rest hrest⟩
  · split
    · exact ⟨[.here], _, rfl, .inr (.inr rfl), hplain rest hrest⟩
    · exact ⟨[], _, rfl, .inl rfl, hplain (first :: rest) (by simp [hsegments])⟩

theorem filterMap_component?_text {rest : List Component} (h : ∀ c ∈ rest, c.IsPlain) :
    (rest.map (·.text)).filterMap component? = rest := by
  rw [List.filterMap_map]
  calc rest.filterMap (component? ∘ (·.text))
      = rest.filterMap some := List.filterMap_congr fun c hc => (h c hc).component?_text
    _ = rest := List.filterMap_some

theorem ofComponents_cons {c : Component} (h : c ≠ .root) (rest : List Component) :
    ofComponents (c :: rest) = "/".intercalate ((c :: rest).map (·.text)) := by
  cases c with
  | root => exact absurd rfl h
  | here => rfl
  | up => rfl
  | name n => rfl

/-- Components in normal form are the components of the path that they make. -/
theorem components_ofComponents {front rest : List Component} (hne : front ++ rest ≠ [])
    (hfront : front = [] ∨ front = [.root] ∨ front = [.here]) (hrest : ∀ c ∈ rest, c.IsPlain) :
    components (ofComponents (front ++ rest)) = front ++ rest := by
  have hslash : ∀ part ∈ rest.map (·.text), '/' ∉ part.toList := by
    intro part hpart
    obtain ⟨c, hc, rfl⟩ := List.mem_map.mp hpart
    exact (hrest c hc).slash_not_mem
  rcases hfront with rfl | rfl | rfl
  · cases rest with
    | nil => exact absurd rfl hne
    | cons c rest =>
        have hroot : c ≠ .root := by
          rintro rfl
          cases hrest .root List.mem_cons_self
        have hsegments : segments (ofComponents (c :: rest)) = c.text :: rest.map (·.text) := by
          rw [ofComponents_cons hroot, segments_intercalate (by simp) hslash, List.map_cons]
        obtain ⟨hempty, hdot⟩ := (hrest c List.mem_cons_self).text_ne
        rw [List.nil_append, components_of_segments_eq_cons hsegments, if_neg hempty, if_neg hdot]
        exact filterMap_component?_text hrest
  · have hof : ofComponents ([.root] ++ rest) = "/" ++ "/".intercalate (rest.map (·.text)) := rfl
    rw [hof, components_of_segments_eq_cons (segments_slash_append _), if_pos rfl,
      if_neg (segments_ne_nil _)]
    by_cases hnil : rest = []
    · subst hnil
      rfl
    · rw [segments_intercalate (by simpa using hnil) hslash, filterMap_component?_text hrest]
      rfl
  · have hof : ofComponents ([.here] ++ rest) = "/".intercalate ("." :: rest.map (·.text)) :=
      ofComponents_cons (by simp) rest
    have hdot : ∀ part ∈ "." :: rest.map (·.text), '/' ∉ part.toList :=
      List.forall_mem_cons.mpr ⟨by decide, hslash⟩
    rw [hof, components_of_segments_eq_cons (segments_intercalate (by simp) hdot),
      if_neg (by decide), if_pos rfl, filterMap_component?_text hrest]
    rfl

theorem directory_eq {path : String} {parent : List Component} {last : Component}
    (h : components path = parent ++ [last]) :
    directory path = if parent = [] then "." else ofComponents parent := by
  rw [directory, h, List.dropLast_concat]
  cases parent with
  | nil => rfl
  | cons c parent => rfl

/-- The directory of a path has the components of the path but the last. -/
theorem components_directory {path : String} {parent : List Component} {last : Component}
    (h : components path = parent ++ [last]) (hne : parent ≠ []) :
    components (directory path) = parent := by
  obtain ⟨front, rest, heq, hfront, hrest⟩ := exists_components_eq path
  rw [directory_eq h, if_neg hne]
  rcases List.eq_nil_or_concat' rest with rfl | ⟨rest, c, rfl⟩
  · -- there is only one component, so the path has no directory
    have hlength : front.length = parent.length + 1 := by
      simpa using congrArg List.length (heq.symm.trans h)
    have hparent := List.length_pos_iff.mpr hne
    have hshort : front.length ≤ 1 := by
      rcases hfront with rfl | rfl | rfl <;> simp
    omega
  · rw [h, ← List.append_assoc] at heq
    obtain ⟨rfl, -⟩ := List.append_inj' heq rfl
    refine components_ofComponents hne hfront fun c hc => hrest c ?_
    exact List.mem_append_left _ hc

theorem getLast?_intercalate_concat_nil {parts : List (List Char)} (h : parts ≠ []) :
    (['/'].intercalate (parts ++ [[]])).getLast? = some '/' := by
  induction parts with
  | nil => exact absurd rfl h
  | cons part parts ih =>
      rw [List.cons_append, List.intercalate_cons_of_ne_nil (by simp), List.getLast?_append]
      cases parts with
      | nil => simp
      | cons part' parts => rw [ih (by simp)]; rfl

theorem toList_eq_intercalate (path : String) :
    path.toList = ['/'].intercalate ((segments path).map String.toList) := by
  rw [segments, List.map_map]
  simp [Function.comp_def, List.intercalate_splitOn]

/-- A path of several segments whose last one is empty ends with a slash. -/
theorem endsWithSlash_of_segments_eq {path : String} {front : List String}
    (h : segments path = front ++ [""]) (hne : front ≠ []) : endsWithSlash path = true := by
  have hempty : "".toList = [] := rfl
  rw [endsWithSlash, toList_eq_intercalate, h, List.map_append, List.map_singleton, hempty,
    getLast?_intercalate_concat_nil (by simpa using hne)]
  rfl

/-- A last segment that means something gives the last component. -/
theorem exists_components_eq_concat_of_segments {path last : String} {front : List String}
    {c : Component} (hsegments : segments path = front ++ [last])
    (hlast : component? last = some c) : ∃ parent, components path = parent ++ [c] := by
  have hconcat : ∀ before : List String,
      (before ++ [last]).filterMap component? = before.filterMap component? ++ [c] := by
    intro before
    simp [hlast]
  cases front with
  | nil =>
      have hempty : last ≠ "" := by
        rintro rfl
        cases hlast
      have hdot : last ≠ "." := by
        rintro rfl
        cases hlast
      rw [components_of_segments_eq_cons hsegments, if_neg hempty, if_neg hdot]
      exact ⟨[], hconcat []⟩
  | cons first rest =>
      rw [List.cons_append] at hsegments
      rw [components_of_segments_eq_cons hsegments, if_neg (by simp : rest ++ [last] ≠ [])]
      split
      · exact ⟨.root :: rest.filterMap component?, by rw [hconcat, List.cons_append]⟩
      · split
        · exact ⟨.here :: rest.filterMap component?, by rw [hconcat, List.cons_append]⟩
        · exact ⟨(first :: rest).filterMap component?, hconcat (first :: rest)⟩

/-- A path that ends with a name has it for its last component. -/
theorem exists_components_eq_concat {path segment : String}
    (hlast : lastSegment? path = some segment) (hslash : endsWithSlash path = false)
    (hdot : segment ≠ ".") (hdots : segment ≠ "..") :
    ∃ parent, components path = parent ++ [.name segment] := by
  obtain ⟨front, last, hsegments⟩ :=
    (List.eq_nil_or_concat' (segments path)).resolve_left (segments_ne_nil path)
  have hempty : last ≠ "" := by
    rintro rfl
    by_cases hfront : front = []
    · simp [lastSegment?, hsegments, hfront] at hlast
    · simp [endsWithSlash_of_segments_eq hsegments hfront] at hslash
  obtain rfl : last = segment := by
    simpa [lastSegment?, hsegments, hempty] using hlast
  exact exists_components_eq_concat_of_segments hsegments (by simp [component?, hempty, hdot, hdots])

end Path

/-! ### Walks -/

namespace Tree

/-- A path leads to a location, at which nothing need be. -/
def LeadsTo (t : Tree) (path : String) (location : Location) : Prop :=
  t.walk t.here (Path.components path) = .ok location

theorem LeadsTo.unique {t : Tree} {path : String} {location location' : Location}
    (h : t.LeadsTo path location) (h' : t.LeadsTo path location') : location = location' :=
  Except.ok.inj (h.symm.trans h')

theorem walk_cons_eq_ok_iff {t : Tree} {location target : Location} {c : Component}
    {rest : List Component} :
    t.walk location (c :: rest) = .ok target ↔
      t.node? location = some .directory ∧ tooLong c = false ∧
        t.walk (next location c) rest = .ok target := by
  rw [walk]
  split
  · next hnode =>
      cases hlong : tooLong c with
      | true => simp
      | false => simp [hnode]
  · next hnode => simp [hnode]
  · next hnode => simp [hnode]

theorem walk_append_eq_ok_iff {t : Tree} {location target : Location}
    {before after : List Component} :
    t.walk location (before ++ after) = .ok target ↔
      ∃ mid, t.walk location before = .ok mid ∧ t.walk mid after = .ok target := by
  induction before generalizing location with
  | nil => simp [walk]
  | cons c before ih => simp only [List.cons_append, walk_cons_eq_ok_iff, ih]; grind

/-- A walk sees directories only. -/
theorem walk_mono {t t' : Tree}
    (h : ∀ location, t.node? location = some .directory → t'.node? location = some .directory)
    {location target : Location} {components : List Component}
    (hwalk : t.walk location components = .ok target) :
    t'.walk location components = .ok target := by
  induction components generalizing location with
  | nil => exact hwalk
  | cons c rest ih =>
      obtain ⟨hnode, hlong, hrest⟩ := walk_cons_eq_ok_iff.mp hwalk
      exact walk_cons_eq_ok_iff.mpr ⟨h location hnode, hlong, ih hrest⟩

/-- What a location holds can be looked up by a path that leads there. -/
theorem lookup_eq_ok_iff {t : Tree} {path : String} {node : Node} :
    t.lookup path = .ok node ↔
      screen path = .ok () ∧ ∃ location, t.LeadsTo path location ∧
        t.node? location = some node ∧
        (node = .directory ∨ Path.requiresDirectory path = false) := by
  simp only [lookup, bind_eq_ok_iff, Unique.exists_iff, PUnit.default_eq_unit, LeadsTo]
  refine and_congr_right fun _ => exists_congr fun location => and_congr_right fun _ => ?_
  cases t.node? location with
  | none => simp
  | some found =>
      cases found with
      | directory =>
          constructor
          · intro h
            cases h
            exact ⟨rfl, .inl rfl⟩
          · rintro ⟨h, -⟩
            cases h
            rfl
      | file bytes =>
          cases Path.requiresDirectory path with
          | true =>
              refine iff_of_false (by simp) ?_
              rintro ⟨h, hdirectory | hfile⟩
              · cases h
                cases hdirectory
              · cases hfile
          | false => simp

theorem directoryAt_eq_ok_iff {t : Tree} {path : String} {location : Location} :
    t.directoryAt path = .ok location ↔
      screen path = .ok () ∧ t.LeadsTo path location ∧ t.node? location = some .directory := by
  rw [directoryAt, bind_eq_ok_iff]
  constructor
  · rintro ⟨node, hlookup, h⟩
    cases node with
    | file bytes => cases h
    | directory =>
        obtain ⟨hscreen, location', hleads, hnode, -⟩ := lookup_eq_ok_iff.mp hlookup
        obtain rfl := hleads.unique h
        exact ⟨hscreen, hleads, hnode⟩
  · rintro ⟨hscreen, hleads, hnode⟩
    exact ⟨.directory, lookup_eq_ok_iff.mpr ⟨hscreen, location, hleads, hnode, .inl rfl⟩, hleads⟩

/-! ### Putting files -/

/-- A file can be put where a path leads: the system looks at the path, it is
the path of a file, and no directory is in the way. -/
structure Admits (t : Tree) (path : String) (location : Location) : Prop where
  screened : screen path = .ok ()
  of_file : Path.requiresDirectory path = false
  ends_with_name : ∃ parent name, Path.components path = parent ++ [.name name]
  leadsTo : t.LeadsTo path location
  not_directory : t.node? location ≠ some .directory

/-- The directory of a path is where the components but the last lead. -/
theorem walk_of_directoryAt {t : Tree} {path : String} {directory : Location}
    {parent : List Component} {last : Component}
    (hcomponents : Path.components path = parent ++ [last])
    (h : t.directoryAt (Path.directory path) = .ok directory) :
    t.walk t.here parent = .ok directory := by
  obtain ⟨-, hleads, -⟩ := directoryAt_eq_ok_iff.mp h
  by_cases hnil : parent = []
  · -- the directory is written as a dot, and nothing is walked
    subst hnil
    have hwalk : t.walk t.here [.here] = .ok directory := by
      rw [LeadsTo, Path.directory_eq hcomponents, if_pos rfl] at hleads
      exact hleads
    obtain ⟨-, -, hrest⟩ := walk_cons_eq_ok_iff.mp hwalk
    exact hrest
  · rw [LeadsTo, Path.components_directory hcomponents hnil] at hleads
    exact hleads

/-- A path leads to its last name in its directory. -/
theorem leadsTo_of_directoryAt {t : Tree} {path segment : String} {directory : Location}
    {parent : List Component} (hcomponents : Path.components path = parent ++ [.name segment])
    (hlong : Path.isLongName segment = false)
    (h : t.directoryAt (Path.directory path) = .ok directory) :
    t.LeadsTo path (directory ++ [segment]) := by
  obtain ⟨-, -, hnode⟩ := directoryAt_eq_ok_iff.mp h
  rw [LeadsTo, hcomponents, walk_append_eq_ok_iff]
  exact ⟨directory, walk_of_directoryAt hcomponents h,
    walk_cons_eq_ok_iff.mpr ⟨hnode, hlong, rfl⟩⟩

theorem admits_of_target {t : Tree} {path : String} {slash dots : SystemFault}
    {location : Location} (h : t.target path slash dots = .ok location) :
    t.Admits path location := by
  obtain ⟨_, hscreen, h⟩ := bind_eq_ok_iff.mp h
  split at h
  · cases h
  · next segment hlast =>
      split at h
      · obtain ⟨_, -, h⟩ := bind_eq_ok_iff.mp h
        cases h
      · next hdots =>
          obtain ⟨directory, hdirectory, h⟩ := bind_eq_ok_iff.mp h
          obtain ⟨hdot, hdots⟩ := not_or.mp hdots
          cases hslash : Path.endsWithSlash path with
          | true => simp [hslash] at h
          | false =>
              cases hlong : Path.isLongName segment with
              | true => simp [hslash, hlong] at h
              | false =>
                  obtain ⟨parent, hcomponents⟩ :=
                    Path.exists_components_eq_concat hlast hslash hdot hdots
                  have hleads := leadsTo_of_directoryAt hcomponents hlong hdirectory
                  have hfile : Path.requiresDirectory path = false := by
                    simp [Path.requiresDirectory, hslash, hlast, hdot]
                  simp only [hslash, hlong, Bool.false_eq_true, if_false] at h
                  split at h
                  · cases h
                  · next hnode =>
                      cases h
                      exact ⟨hscreen, hfile, ⟨parent, segment, hcomponents⟩, hleads, hnode⟩

theorem lookup_putNode (location : Location) (node : Node) (nodes : List (Location × Node))
    (other : Location) :
    (putNode location node nodes).lookup other =
      if other = location then some node else nodes.lookup other := by
  fun_induction putNode location node nodes with
  | case1 =>
      by_cases h : other = location
      · rw [if_pos h, h, List.lookup_cons_self]
      · rw [if_neg h, List.lookup_cons, beq_false_of_ne h]
  | case2 n rest =>
      by_cases h : other = location
      · rw [if_pos h, h, List.lookup_cons_self]
      · rw [if_neg h, List.lookup_cons, List.lookup_cons, beq_false_of_ne h]
  | case3 l n rest hne ih =>
      rw [List.lookup_cons, List.lookup_cons, ih]
      by_cases h : other = l
      · subst h
        rw [if_neg hne, if_neg hne, BEq.rfl]
      · rw [beq_false_of_ne h]

/-- Putting something at a location changes what that location holds, and nothing else. -/
theorem node?_put (t : Tree) {location : Location} (h : location ≠ []) (node : Node)
    (other : Location) :
    (t.put location node).node? other =
      if other = location then some node else t.node? other := by
  cases other with
  | nil => rw [if_neg (Ne.symm h)]; rfl
  | cons name rest => exact lookup_putNode location node t.nodes (name :: rest)

/-- Nothing has changed but what a path leads to. -/
structure AgreesOff (t : Tree) (path : String) (t' : Tree) : Prop where
  here_eq : t'.here = t.here
  node?_eq : ∀ location, ¬ t.LeadsTo path location → t'.node? location = t.node? location

namespace Admits

variable {t : Tree} {path : String} {location : Location} (h : t.Admits path location)
include h

/-- The location is that of a name in a directory. -/
theorem exists_directory : ∃ parent name directory,
    Path.components path = parent ++ [.name name] ∧ t.walk t.here parent = .ok directory ∧
      t.node? directory = some .directory ∧ Path.isLongName name = false ∧
      location = directory ++ [name] := by
  obtain ⟨parent, name, hcomponents⟩ := h.ends_with_name
  have hleads := h.leadsTo
  rw [LeadsTo, hcomponents, walk_append_eq_ok_iff] at hleads
  obtain ⟨directory, hparent, hlast⟩ := hleads
  obtain ⟨hnode, hlong, hlocation⟩ := walk_cons_eq_ok_iff.mp hlast
  cases hlocation
  exact ⟨parent, name, directory, hcomponents, hparent, hnode, hlong, rfl⟩

theorem ne_root : location ≠ [] := by
  obtain ⟨parent, name, directory, -, -, -, -, rfl⟩ := h.exists_directory
  simp

theorem agreesOff_put (node : Node) : t.AgreesOff path (t.put location node) where
  here_eq := rfl
  node?_eq := fun other hother => by
    rw [node?_put t h.ne_root, if_neg]
    rintro rfl
    exact hother h.leadsTo

/-- The file that was put is what the path leads to. -/
theorem lookup_put (bytes : ByteArray) :
    (t.put location (.file bytes)).lookup path = .ok (.file bytes) := by
  refine lookup_eq_ok_iff.mpr ⟨h.screened, location, ?_, ?_, .inr h.of_file⟩
  · -- no directory has gone, so the walk to the location is the same
    refine walk_mono (fun other hother => ?_) h.leadsTo
    rw [node?_put t h.ne_root, if_neg, hother]
    rintro rfl
    exact h.not_directory hother
  · rw [node?_put t h.ne_root, if_pos rfl]

/-- The path leads to something exactly if there is a file at its location. -/
theorem isSome_kind? : (t.kind? path).isSome = (t.node? location).isSome := by
  cases hnode : t.node? location with
  | none =>
      cases hlookup : t.lookup path with
      | error f => simp [kind?, hlookup]
      | ok node =>
          obtain ⟨-, location', hleads, hnode', -⟩ := lookup_eq_ok_iff.mp hlookup
          obtain rfl := hleads.unique h.leadsTo
          rw [hnode] at hnode'
          cases hnode'
  | some node =>
      have hlookup : t.lookup path = .ok node :=
        lookup_eq_ok_iff.mpr ⟨h.screened, location, h.leadsTo, hnode, .inr h.of_file⟩
      cases node with
      | directory => exact absurd hnode h.not_directory
      | file bytes => simp [kind?, hlookup]

end Admits

/-- A tree in which a path has been given a text: the path leads to a file with
this text, and nothing else has changed. -/
structure Written (t : Tree) (path text : String) (t' : Tree) : Prop where
  agreesOff : t.AgreesOff path t'
  lookup_eq : t'.lookup path = .ok (.file text.toUTF8)

theorem Admits.written {t : Tree} {path : String} {location : Location}
    (h : t.Admits path location) (text : String) :
    t.Written path text (t.put location (.file text.toUTF8)) :=
  ⟨h.agreesOff_put _, h.lookup_put _⟩

/-- Reading a file that holds a text gives the text. -/
theorem readText_of_lookup {t : Tree} {path text : String}
    (h : t.lookup path = .ok (.file text.toUTF8)) : t.readText path = .ok text := by
  have hvalid : text.toUTF8.IsValidUTF8 := text.isValidUTF8
  have hdecode : String.fromUTF8? text.toUTF8 = some text := by
    rw [String.fromUTF8?, dif_pos hvalid]
    rfl
  simp only [readText, h, hdecode]

/-! ### Writing -/

theorem exists_admits_of_replaceBytes {t t' : Tree} {path : String} {bytes : ByteArray}
    (h : t.replaceBytes path bytes = .ok t') :
    ∃ location, t.Admits path location ∧ t' = t.put location (.file bytes) := by
  unfold replaceBytes at h
  split at h
  · cases h
  · dsimp only at h
    split at h
    · cases h
    · next location htarget =>
        cases h
        exact ⟨location, admits_of_target htarget, rfl⟩

theorem exists_admits_of_replace {t t' : Tree} {path text : String}
    (h : t.replace path text = .ok t') :
    ∃ location, t.Admits path location ∧ t' = t.put location (.file text.toUTF8) :=
  exists_admits_of_replaceBytes h

theorem exists_admits_of_overwrite {t t' : Tree} {path text : String}
    (h : t.overwrite path text = .ok t') :
    ∃ location, t.Admits path location ∧ t' = t.put location (.file text.toUTF8) := by
  obtain ⟨location, htarget, h⟩ := bind_eq_ok_iff.mp h
  cases h
  exact ⟨location, admits_of_target htarget, rfl⟩

end Tree

end BreakRules
