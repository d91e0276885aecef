import Compendium.Output
import Compendium.Proofs.Paths

/-!
# Where documents lie

The segments of a name are followed one after the other from the directory of its kind, and a segment
with slashes in it is more than one directory: `Name.route` is what results. As long as no segment
begins with a slash (`Name.IsRooted`), the document lies below the output directory at the route of
its name (`steps_pathFor`), and kind, route and format can be read off its path
(`documentRoute_inj`). A segment that begins with a slash stands for a path from the root; what comes
before it is dropped, with the output directory (`pathFor_of_isRooted`).
-/

namespace Compendium

namespace Name

variable {n : Name} {c segment : List Char}

theorem mem_segments (h : segment ∈ n.segments) : segment ≠ [] ∧ '.' ∉ segment := by
  obtain ⟨hsplit, hne⟩ := List.mem_filter.mp h
  exact ⟨by simpa using hne, fun hdot => (Text.mem_of_mem_split hsplit hdot).2 rfl⟩

/-- The directories that the segments of a name lead through, and the file in the last one. -/
def route (n : Name) : List (List Char) :=
  n.segments.flatMap fun segment => Path.components ⟨segment⟩

/-- Whether a segment begins with a slash. -/
def IsRooted (n : Name) : Prop :=
  ∃ segment ∈ n.segments, Path.isAbsolute ⟨segment⟩ = true

instance (n : Name) : Decidable n.IsRooted :=
  inferInstanceAs (Decidable (∃ segment ∈ n.segments, Path.isAbsolute ⟨segment⟩ = true))

theorem mem_components_segment (h : segment ∈ n.segments) (hc : c ∈ Path.components ⟨segment⟩) :
    c ≠ [] ∧ '.' ∉ c := by
  obtain ⟨hne, hchars⟩ := Path.mem_components hc
  exact ⟨hne, fun hdot => (mem_segments h).2 (hchars _ hdot).1⟩

theorem mem_route (h : c ∈ n.route) : c ≠ [] ∧ '.' ∉ c := by
  obtain ⟨segment, hs, hc⟩ := List.mem_flatMap.mp h
  exact mem_components_segment hs hc

end Name

/-! ### Segments behind one another -/

namespace Path

variable {segments : List (List Char)} {segment c : List Char} {p q : Path}

/-- The segments one behind the other, from `p` on. -/
def joinAll (p : Path) (segments : List (List Char)) : Path :=
  segments.foldl (fun path segment => path.join ⟨segment⟩) p

theorem joinAll_cons (p : Path) (segment : List Char) (segments : List (List Char)) :
    p.joinAll (segment :: segments) = (p.join ⟨segment⟩).joinAll segments := rfl

theorem isAbsolute_joinAll (p : Path) (segments : List (List Char)) :
    (p.joinAll segments).isAbsolute =
      (p.isAbsolute || segments.any fun segment => isAbsolute ⟨segment⟩) := by
  induction segments generalizing p with
  | nil => exact (Bool.or_false _).symm
  | cons segment segments ih => rw [joinAll_cons, ih, isAbsolute_join, Bool.or_assoc, List.any_cons]

theorem components_joinAll (h : ∀ segment ∈ segments, isAbsolute ⟨segment⟩ = false) (p : Path) :
    (p.joinAll segments).components =
      p.components ++ segments.flatMap fun segment => components ⟨segment⟩ := by
  induction segments generalizing p with
  | nil => exact (List.append_nil _).symm
  | cons segment segments ih =>
    obtain ⟨hs, hss⟩ := List.forall_mem_cons.mp h
    rw [joinAll_cons, ih hss, components_join hs, List.flatMap_cons, List.append_assoc]

theorem mem_components_join (h : c ∈ (p.join q).components) : c ∈ p.components ∨ c ∈ q.components := by
  by_cases hq : q.isAbsolute = true
  · rw [join_of_isAbsolute hq] at h
    exact Or.inr h
  · rw [components_join (Bool.eq_false_iff.mpr hq)] at h
    exact List.mem_append.mp h

theorem mem_components_joinAll (h : c ∈ (p.joinAll segments).components) :
    c ∈ p.components ∨ ∃ segment ∈ segments, c ∈ components ⟨segment⟩ := by
  induction segments generalizing p with
  | nil => exact Or.inl h
  | cons segment segments ih =>
    rcases ih h with hc | ⟨s, hs, hc⟩
    · exact (mem_components_join hc).imp_right fun hc => ⟨segment, List.mem_cons_self .., hc⟩
    · exact Or.inr ⟨s, List.mem_cons_of_mem _ hs, hc⟩

end Path

/-! ### The path of a document -/

theorem Kind.directory_inj {kind kind' : Kind} (h : kind.directory.toList = kind'.directory.toList) :
    kind = kind' := by
  cases kind <;> cases kind' <;> first | rfl | exact absurd h (by decide)

theorem Kind.mem_directory (kind : Kind) :
    kind.directory.toList ≠ [] ∧ '/' ∉ kind.directory.toList ∧ '.' ∉ kind.directory.toList := by
  cases kind <;> decide

theorem Format.mem_extension (format : Format) :
    format.extension.toList ≠ [] ∧ '/' ∉ format.extension.toList ∧ '.' ∉ format.extension.toList := by
  cases format <;> decide

theorem Format.extension_inj {format format' : Format}
    (h : format.extension.toList = format'.extension.toList) : format = format' := by
  cases format <;> cases format' <;> first | rfl | exact absurd h (by decide)

/-- Neither the name of a file nor its extension has a dot in it, so the dot tells where the name ends. -/
theorem Format.append_extension_inj {file file' : List Char} {format format' : Format} (h : '.' ∉ file)
    (heq : file ++ '.' :: format.extension.toList = file' ++ '.' :: format'.extension.toList) :
    file = file' ∧ format = format' := by
  obtain ⟨rfl, -, hextension⟩ := (List.append_cons_inj_of_notMem h format.mem_extension.2.2).mp heq
  exact ⟨rfl, extension_inj hextension⟩

/-- The way to a document from the output directory. -/
def documentRoute (kind : Kind) (n : Name) (format : Format) : List (List Char) :=
  (kind.directory.toList :: n.route).modifyLast (· ++ '.' :: format.extension.toList)

variable {kind kind' : Kind} {m n : Name} {format format' : Format}

/-- The way to a document as directories and a file, with its name and its extension. -/
theorem documentRoute_eq (kind : Kind) (n : Name) (format : Format) :
    ∃ directories file, kind.directory.toList :: n.route = directories ++ [file] ∧
      documentRoute kind n format = directories ++ [file ++ '.' :: format.extension.toList] ∧
      ∀ c ∈ directories ++ [file], c ≠ [] ∧ '.' ∉ c := by
  have hall : ∀ c ∈ kind.directory.toList :: n.route, c ≠ [] ∧ '.' ∉ c := by
    intro c hc
    rcases List.mem_cons.mp hc with rfl | hc
    · exact ⟨kind.mem_directory.1, kind.mem_directory.2.2⟩
    · exact Name.mem_route hc
  have hlast := List.dropLast_concat_getLast (List.cons_ne_nil kind.directory.toList n.route)
  rw [documentRoute]
  rw [← hlast] at hall ⊢
  exact ⟨_, _, rfl, List.modifyLast_concat .., hall⟩

/-- Kind, route and format can be told from the way to a document. -/
theorem documentRoute_inj :
    documentRoute kind m format = documentRoute kind' n format' ↔
      kind = kind' ∧ m.route = n.route ∧ format = format' := by
  constructor
  · intro h
    obtain ⟨directories, file, heq, hroute, hall⟩ := documentRoute_eq kind m format
    obtain ⟨directories', file', heq', hroute', hall'⟩ := documentRoute_eq kind' n format'
    rw [hroute, hroute'] at h
    obtain ⟨rfl, hlast⟩ := List.append_inj' h rfl
    obtain ⟨rfl, hformat⟩ := Format.append_extension_inj (hall file (by simp)).2
      (List.singleton_injective hlast)
    obtain ⟨hkind, hroutes⟩ := List.cons.inj (heq.trans heq'.symm)
    exact ⟨Kind.directory_inj hkind, hroutes, hformat⟩
  · rintro ⟨rfl, hroute, rfl⟩
    rw [documentRoute, documentRoute, hroute]

theorem relativePath_eq (kind : Kind) (n : Name) (extension : String) :
    relativePath kind n extension =
      ((Path.ofString kind.directory).joinAll n.segments).addExtension extension.toList := rfl

theorem isAbsolute_relativePath (kind : Kind) (n : Name) (extension : String) :
    (relativePath kind n extension).isAbsolute = n.segments.any fun segment => Path.isAbsolute ⟨segment⟩ := by
  rw [relativePath_eq, Path.isAbsolute_addExtension, Path.isAbsolute_joinAll]
  cases kind <;> rfl

theorem isAbsolute_relativePath_iff (kind : Kind) (n : Name) (extension : String) :
    (relativePath kind n extension).isAbsolute = true ↔ n.IsRooted := by
  rw [isAbsolute_relativePath, List.any_eq_true]
  rfl

theorem isAbsolute_relativePath_of_not_isRooted (h : ¬ n.IsRooted) {extension : String} :
    (relativePath kind n extension).isAbsolute = false := by
  rwa [Bool.eq_false_iff, Ne, isAbsolute_relativePath_iff]

theorem components_directory (kind : Kind) :
    (Path.ofString kind.directory).components = [kind.directory.toList] :=
  Path.components_of_not_mem kind.mem_directory.1 kind.mem_directory.2.1

theorem components_joinAll_segments (h : ¬ n.IsRooted) (kind : Kind) :
    (Path.joinAll (.ofString kind.directory) n.segments).components = kind.directory.toList :: n.route := by
  have hsegments : ∀ segment ∈ n.segments, Path.isAbsolute ⟨segment⟩ = false := fun segment hs =>
    Bool.eq_false_iff.mpr fun habs => h ⟨segment, hs, habs⟩
  rw [Path.components_joinAll hsegments, components_directory]
  rfl

theorem components_relativePath (h : ¬ n.IsRooted) (kind : Kind) (format : Format) :
    (relativePath kind n format.extension).components = documentRoute kind n format := by
  rw [relativePath_eq, Path.components_addExtension format.mem_extension.1 format.mem_extension.2.1,
    components_joinAll_segments h]
  rfl

theorem isPlain_of_not_mem {c : List Char} (h : '.' ∉ c) : Path.IsPlain c := by
  constructor <;> rintro rfl <;> exact h (List.mem_cons_self ..)

theorem isPlain_append {c : List Char} (hne : c ≠ []) (h : '.' ∉ c) (cs : List Char) :
    Path.IsPlain (c ++ cs) := by
  obtain ⟨x, c, rfl⟩ := List.exists_cons_of_ne_nil hne
  have hx : x ≠ '.' := fun hx => h (hx ▸ List.mem_cons_self ..)
  constructor <;> exact fun he => hx (List.cons.inj he).1

theorem isPlain_of_mem_modifyLast {cs : List (List Char)} (h : ∀ c ∈ cs, c ≠ [] ∧ '.' ∉ c)
    {extension c : List Char} (hc : c ∈ cs.modifyLast (· ++ extension)) : Path.IsPlain c := by
  rcases List.eq_nil_or_concat' cs with rfl | ⟨directories, file, rfl⟩
  · exact absurd hc List.not_mem_nil
  · obtain ⟨hdirectories, hfile⟩ := List.forall_mem_append.mp h
    obtain ⟨hne, hdot⟩ := hfile file (List.mem_singleton_self file)
    rw [List.modifyLast_concat] at hc
    rcases List.mem_append.mp hc with hc | hc
    · exact isPlain_of_not_mem (hdirectories c hc).2
    · exact List.mem_singleton.mp hc ▸ isPlain_append hne hdot extension

theorem mem_components_joinAll_segments {c : List Char}
    (h : c ∈ (Path.joinAll (.ofString kind.directory) n.segments).components) : c ≠ [] ∧ '.' ∉ c := by
  rcases Path.mem_components_joinAll h with hc | ⟨segment, hs, hc⟩
  · rw [components_directory, List.mem_singleton] at hc
    exact hc ▸ ⟨kind.mem_directory.1, kind.mem_directory.2.2⟩
  · exact Name.mem_components_segment hs hc

/-- Every component on the way to a document is a proper name, whatever the name of the document. -/
theorem isPlain_of_mem_relativePath {c : List Char}
    (h : c ∈ (relativePath kind n format.extension).components) : Path.IsPlain c := by
  rw [relativePath_eq, Path.components_addExtension format.mem_extension.1 format.mem_extension.2.1] at h
  exact isPlain_of_mem_modifyLast (fun _ => mem_components_joinAll_segments) h

namespace Layout

variable {l : Layout}

theorem steps_pathFor (h : ¬ n.IsRooted) (l : Layout) (kind : Kind) (format : Format) :
    (l.pathFor kind n format).steps = l.base.steps ++ (documentRoute kind n format).map .into := by
  rw [pathFor, Path.steps_join (isAbsolute_relativePath_of_not_isRooted h)
    fun _ => isPlain_of_mem_relativePath, components_relativePath h]

/-- The path of a document with a rooted name does not depend on the output directory. -/
theorem pathFor_of_isRooted (h : n.IsRooted) (l : Layout) (kind : Kind) (format : Format) :
    l.pathFor kind n format = relativePath kind n format.extension :=
  Path.join_of_isAbsolute ((isAbsolute_relativePath_iff ..).mpr h) _

theorem steps_pathFor_of_isRooted (h : n.IsRooted) (l : Layout) (kind : Kind) (format : Format) :
    (l.pathFor kind n format).steps =
      .root :: (relativePath kind n format.extension).components.map .into := by
  rw [pathFor_of_isRooted h, Path.steps_of_isAbsolute ((isAbsolute_relativePath_iff ..).mpr h)]
  exact fun _ => isPlain_of_mem_relativePath

/-- From a directory that is not absolute, no path leads to the root. -/
theorem root_not_mem_steps {p : Path} (h : p.isAbsolute = false) : Path.Step.root ∉ p.steps := by
  rw [Path.steps, h]
  intro hmem
  rcases List.mem_append.mp hmem with hmem | hmem
  · rw [if_neg Bool.false_ne_true] at hmem
    split at hmem
    · cases List.mem_singleton.mp hmem
    · exact List.not_mem_nil hmem
  · obtain ⟨c, -, hc⟩ := List.mem_map.mp hmem
    rw [Path.Step.ofComponent] at hc
    split at hc <;> cases hc

theorem isBelow_pathFor (h : ¬ n.IsRooted) (l : Layout) (kind : Kind) (format : Format) :
    (l.pathFor kind n format).IsBelow l.base :=
  ⟨_, steps_pathFor h l kind format⟩

theorem not_isBelow_pathFor (h : n.IsRooted) (hbase : l.base.isAbsolute = false) (kind : Kind)
    (format : Format) : ¬ (l.pathFor kind n format).IsBelow l.base := by
  rintro ⟨names, hnames⟩
  rw [steps_pathFor_of_isRooted h] at hnames
  have hroot : Path.Step.root ∈ l.base.steps ++ names.map .into := hnames ▸ List.mem_cons_self ..
  rcases List.mem_append.mp hroot with hroot | hroot
  · exact root_not_mem_steps hbase hroot
  · obtain ⟨c, -, hc⟩ := List.mem_map.mp hroot
    cases hc

/-- A document lies below the output directory if no segment of its name begins with a slash. If one
does, then its path starts at the root and is the same for all output directories; so it does not
lie below any that is not absolute. In no case is there a step up. -/
theorem pathFor_isBelow_unless_rooted (l : Layout) (kind : Kind) (n : Name) (format : Format) :
    (¬ n.IsRooted → (l.pathFor kind n format).IsBelow l.base) ∧
    (n.IsRooted →
      (∀ l' : Layout, l'.pathFor kind n format = l.pathFor kind n format) ∧
      ∃ names : List (List Char), (l.pathFor kind n format).steps = .root :: names.map .into) ∧
    (l.base.isAbsolute = false → ((l.pathFor kind n format).IsBelow l.base ↔ ¬ n.IsRooted)) := by
  refine ⟨fun h => isBelow_pathFor h l kind format, fun h => ⟨fun l' => ?_, ?_⟩, fun hbase => ?_⟩
  · rw [pathFor_of_isRooted h, pathFor_of_isRooted h]
  · exact ⟨_, steps_pathFor_of_isRooted h l kind format⟩
  · exact ⟨fun hbelow h => not_isBelow_pathFor h hbase kind format hbelow,
      fun h => isBelow_pathFor h l kind format⟩

theorem pathFor_isBelow_unless_rooted_site :
    (¬ Name.IsRooted ⟨"A..B/C"⟩ ∧
      (pathFor ⟨.ofString "site/"⟩ .module ⟨"A..B/C"⟩ .latex).IsBelow (.ofString "site/")) ∧
    (Name.IsRooted ⟨"A./etc"⟩ ∧
      pathFor ⟨.ofString "other"⟩ .module ⟨"A./etc"⟩ .latex =
        pathFor ⟨.ofString "site/"⟩ .module ⟨"A./etc"⟩ .latex) := by
  have hinner : ¬ Name.IsRooted ⟨"A..B/C"⟩ := by decide
  have hrooted : Name.IsRooted ⟨"A./etc"⟩ := by decide
  have hbelow := pathFor_isBelow_unless_rooted ⟨.ofString "site/"⟩ .module ⟨"A..B/C"⟩ .latex
  have hsame := pathFor_isBelow_unless_rooted ⟨.ofString "site/"⟩ .module ⟨"A./etc"⟩ .latex
  exact ⟨⟨hinner, hbelow.1 hinner⟩, hrooted, (hsame.2.1 hrooted).1 ⟨.ofString "other"⟩⟩

/-- A segment that begins with a slash leads out of the output directory. -/
theorem pathFor_rooted_not_isBelow :
    pathFor ⟨.ofString "site"⟩ .module ⟨"A./etc"⟩ .latex = .ofString "/etc.tex" ∧
      ¬ (pathFor ⟨.ofString "site"⟩ .module ⟨"A./etc"⟩ .latex).IsBelow (.ofString "site") :=
  ⟨by decide, not_isBelow_pathFor (by decide) (by decide) .module .latex⟩

end Layout

end Compendium
