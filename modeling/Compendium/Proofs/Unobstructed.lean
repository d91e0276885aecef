import Compendium.Proofs.TidyTree

/-!
# Documents that are not in each other's way

The names of a hierarchy put documents and directories beside each other: the module `A` is a file, and the
module `A.B` needs a directory `A`. The file has an extension, and no directory has a dot in its name, so the
way to a document never leads through another one (`documentRoute_prefixFree`). Writing documents keeps a tree in
which files can be told from directories that way (`Layout.Tidy.write_safe`), so whatever has been written
before, only the path can be to blame if a document cannot be written (`Layout.documents_never_obstruct`).
-/

namespace Compendium

variable {kind kind' : Kind} {m n : Name} {format format' : Format}

/-! ### The ways to two documents -/

theorem Name.IsFlat.route_eq (h : n.IsFlat) : n.route = n.segments := by
  have hsegments : ∀ segment ∈ n.segments, Path.components ⟨segment⟩ = [segment] := fun segment hs =>
    Path.components_of_not_mem (mem_segments hs).1 (h.not_mem_segment hs)
  rw [route, List.flatMap_congr hsegments, List.flatMap_singleton']

theorem Name.components_inj : m.components = n.components ↔ m.segments = n.segments :=
  (List.map_injective_iff.mpr fun _ _ => String.ofList_inj.mp).eq_iff

theorem documentRoute_ne (hm : m.IsFlat) (hn : n.IsFlat)
    (h : (kind, format, m.components) ≠ (kind', format', n.components)) :
    documentRoute kind m format ≠ documentRoute kind' n format' := by
  intro hroute
  obtain ⟨rfl, hroutes, rfl⟩ := documentRoute_inj.mp hroute
  rw [hm.route_eq, hn.route_eq, ← Name.components_inj] at hroutes
  exact h (by rw [hroutes])

/-- The way to a document does not lead through another one. -/
theorem documentRoute_prefixFree (h : documentRoute kind m format <+: documentRoute kind' n format') :
    documentRoute kind m format = documentRoute kind' n format' := by
  obtain ⟨directories, file, -, hroute, -⟩ := documentRoute_eq kind m format
  obtain ⟨directories', file', -, hroute', hall'⟩ := documentRoute_eq kind' n format'
  rw [hroute, hroute'] at h ⊢
  rcases List.prefix_concat_iff.mp h with heq | hinside
  · exact heq
  · -- the file would be one of the directories
    have hmem : file ++ '.' :: format.extension.toList ∈ directories' := hinside.subset (by simp)
    exact absurd (by simp) (hall' _ (List.mem_append_left _ hmem)).2

theorem steps_relativePath (h : ¬ n.IsRooted) (kind : Kind) (format : Format) :
    (relativePath kind n format.extension).steps = (documentRoute kind n format).map .into := by
  have hbase : Layout.pathFor ⟨⟨[]⟩⟩ kind n format = relativePath kind n format.extension := if_pos (Bool.or_true _)
  rw [← hbase, Layout.steps_pathFor h]
  rfl

theorem prefix_of_isBelow (hm : ¬ m.IsRooted) (hn : ¬ n.IsRooted)
    (h : (relativePath kind m format.extension).IsBelow (relativePath kind' n format'.extension)) :
    documentRoute kind' n format' <+: documentRoute kind m format := by
  obtain ⟨names, hnames⟩ := h
  rw [steps_relativePath hm, steps_relativePath hn, ← List.map_append] at hnames
  exact ⟨names, (List.map_injective_iff.mpr (fun _ _ => Path.Step.into.inj) hnames).symm⟩

theorem prefix_of_liesIn (hm : ¬ m.IsRooted) (hn : ¬ n.IsRooted)
    (h : (relativePath kind m format.extension).LiesIn (relativePath kind' n format'.extension)) :
    documentRoute kind' n format' <+: documentRoute kind m format := by
  have hpre := h.prefix_components.1
  rwa [components_relativePath hm, components_relativePath hn] at hpre

/-- A document does not lie below another one, nor in it as if it were a directory. -/
theorem relativePath_apart (hm : m.IsFlat) (hn : n.IsFlat)
    (h : (kind, format, m.components) ≠ (kind', format', n.components)) :
    ¬ (relativePath kind m format.extension).IsBelow (relativePath kind' n format'.extension) ∧
      ¬ (relativePath kind m format.extension).LiesIn (relativePath kind' n format'.extension) := by
  have hroute := documentRoute_ne hm hn h
  constructor
  · intro hbelow
    exact hroute (documentRoute_prefixFree (prefix_of_isBelow hm.not_isRooted hn.not_isRooted hbelow)).symm
  · intro hlies
    exact hroute (documentRoute_prefixFree (prefix_of_liesIn hm.not_isRooted hn.not_isRooted hlies)).symm

/-! ### Writing a document in a tidy tree -/

/-- What could not be written is a file or one of the directories that it lies in, and its path is to blame, whatever
there is in the tree. -/
def ExportError.Blames (e : ExportError) (file : Path) : Prop :=
  ∃ p cause, e = .write p cause ∧ (p = file ∨ file.LiesIn p) ∧ cause.BlamesPath

namespace Layout

variable {l : Layout} {t : FileTree} {p a : Path} {dirs : List (List Char)} {c : List Char}

open FileSystem in
theorem Tidy.writeText_safe (ht : l.Tidy t) (h : l.WayTo (dirs ++ [c]) p) (hdirs : Undotted dirs)
    (hc : Path.IsPlain c) (hdot : '.' ∈ c) (ha : l.WayTo dirs a) (hthere : t.HasDirectory a) (text : String) :
    l.Safe (writeText p text : TreeAction) t FileError.BlamesPath := by
  have hrun := changeState_run (fun t => t.writeText p text) t
  rcases h.place_of_hasDirectory ht hdirs hc ha hthere with ⟨e, he, hblames⟩ | hplace
  · have hwrite : t.writeText p text = .error e := by
      rw [FileTree.writeText, he]
      rfl
    rw [hwrite] at hrun
    exact .error hrun ht hblames
  · have hfile : t.at? (l.home t ++ (dirs ++ [c])) ≠ some .directory := fun h => (ht.dotted _ _ _ h).mp rfl hdot
    have hwrite : t.writeText p text = .ok (t.put (l.home t ++ (dirs ++ [c])) (.file text.toUTF8)) :=
      FileTree.writeText_eq_ok_iff.mpr ⟨_, hplace, hfile, rfl⟩
    rw [hwrite] at hrun
    exact .ok hrun (ht.put dirs (iff_of_false nofun (not_not.mpr hdot)))

theorem Tidy.writeFile_safe (ht : l.Tidy t) (h : l.WayTo (dirs ++ [c]) p) (hdirs : Undotted dirs)
    (hc : Path.IsPlain c) (hdot : '.' ∈ c) (text : String) :
    l.Safe (writeFile p text : OnTree Path).run t (·.Blames p) := by
  obtain ⟨a, ha, hway⟩ := h.parent hc.1
  have hrun := writeFile_run ha text t
  cases ht.makeDirectories_safe hdirs hway with
  | error hparent ht₁ he =>
    rw [hparent] at hrun
    exact .error hrun ht₁ ⟨a, _, rfl, Or.inr (.single ha), he⟩
  | ok hparent ht₁ =>
    rw [hparent] at hrun
    have hthere := hasDirectory_of_makeDirectories hparent
    cases ht₁.writeText_safe h hdirs hc hdot hway hthere text with
    | error hlast ht₂ he =>
      dsimp only at hrun
      rw [hlast] at hrun
      exact .error hrun ht₂ ⟨p, _, rfl, Or.inl rfl, he⟩
    | ok hlast ht₂ =>
      dsimp only at hrun
      rw [hlast] at hrun
      exact .ok hrun ht₂

theorem getLast?_pathFor (h : n.IsFlat) (l : Layout) (kind : Kind) (format : Format) :
    (l.pathFor kind n format).chars.getLast? ≠ some '/' := by
  obtain ⟨front, hfront⟩ : ∃ front, (l.pathFor kind n format).chars = front ++ '.' :: format.extension.toList := by
    have hchars := chars_relativePath h kind format
    rcases Path.join_cases (isAbsolute_relativePath_of_not_isRooted h.not_isRooted) l.base with
      ⟨-, hj⟩ | ⟨front, -, hj⟩ | ⟨-, hj⟩
    · exact ⟨_, by rw [pathFor, hj, hchars]⟩
    · exact ⟨_, by rw [pathFor, hj, hchars, ← List.cons_append, ← List.append_assoc]⟩
    · exact ⟨_, by rw [pathFor, hj, hchars, ← List.cons_append, ← List.append_assoc]⟩
  rw [hfront, List.getLast?_append_of_ne_nil _ (List.cons_ne_nil _ _)]
  cases format <;> decide

theorem wayTo_pathFor (h : n.IsFlat) (l : Layout) (kind : Kind) (format : Format) :
    l.WayTo (documentRoute kind n format) (l.pathFor kind n format) := by
  have hrelative : (relativePath kind n format.extension).isAbsolute = false :=
    isAbsolute_relativePath_of_not_isRooted h.not_isRooted
  refine ⟨?_, ⟨[], nofun, ?_⟩, fun hend => absurd hend (l.getLast?_pathFor h kind format)⟩
  · rw [pathFor, Path.isAbsolute_join, hrelative, Bool.or_false]
  · rw [pathFor, Path.components_join hrelative, components_relativePath h.not_isRooted, List.append_nil]

theorem Tidy.write_safe (ht : l.Tidy t) (h : n.IsFlat) (kind : Kind) (text : String) (format : Format) :
    l.Safe (l.write kind n text format : OnTree Path).run t (·.Blames (l.pathFor kind n format)) := by
  obtain ⟨directories, file, -, hroute, hall⟩ := documentRoute_eq kind n format
  obtain ⟨hdirectories, hfile⟩ := List.forall_mem_append.mp hall
  obtain ⟨hne, hdot⟩ := hfile file (List.mem_singleton_self file)
  have hway := l.wayTo_pathFor h kind format
  rw [hroute] at hway
  exact ht.writeFile_safe hway (fun c hc => (hdirectories c hc).2) (isPlain_append hne hdot _) (by simp) text

end Layout

/-! ### Writing many documents -/

/-- A document that is to be written. -/
structure Writing where
  kind : Kind
  name : Name
  text : String
  format : Format

namespace Writing

def path (w : Writing) (l : Layout) : Path := l.pathFor w.kind w.name w.format

/-- The way to the document from the output directory. -/
def route (w : Writing) : Place := documentRoute w.kind w.name w.format

def action (w : Writing) (l : Layout) : OnTree Path := l.write w.kind w.name w.text w.format

end Writing

namespace Layout

variable {l : Layout} {t : FileTree} {w : Writing} {ws : List Writing}

/-- What becomes of a tree by writing documents one after the other, whether or not something goes wrong. -/
def after (l : Layout) (t : FileTree) (ws : List Writing) : FileTree :=
  ws.foldl (fun t w => ((w.action l).run.run t).2) t

theorem after_cons (l : Layout) (t : FileTree) (w : Writing) (ws : List Writing) :
    l.after t (w :: ws) = l.after ((w.action l).run.run t).2 ws := rfl

theorem home_after (l : Layout) (t : FileTree) (ws : List Writing) : l.home (l.after t ws) = l.home t := by
  induction ws generalizing t with
  | nil => rfl
  | cons w ws ih =>
    obtain ⟨r, ws', hputs, -⟩ := writeFile_puts (w.path l) w.text t
    have hrun : (w.action l).run.run t = (r, t.make ws') := hputs.run
    rw [after_cons, ih, hrun]
    rfl

theorem Tidy.action_safe (ht : l.Tidy t) (hw : w.name.IsFlat) : l.Safe (w.action l).run t (·.Blames (w.path l)) :=
  ht.write_safe hw w.kind w.text w.format

theorem Tidy.after (ht : l.Tidy t) (hws : ∀ w ∈ ws, w.name.IsFlat) : l.Tidy (l.after t ws) := by
  induction ws generalizing t with
  | nil => exact ht
  | cons w ws ih =>
    obtain ⟨hw, hws⟩ := List.forall_mem_cons.mp hws
    rw [after_cons]
    exact ih (ht.action_safe hw).tidy hws

/-- A document and a directory are never in each other's place. -/
theorem Tidy.route_free (ht : l.Tidy t) (w : Writing) :
    t.at? (l.home t ++ w.route) ≠ some .directory ∧
    ∀ r, r <+: w.route → r ≠ w.route → ∀ content, t.at? (l.home t ++ r) ≠ some (.file content) := by
  obtain ⟨directories, file, -, hroute, hall⟩ := documentRoute_eq w.kind w.name w.format
  rw [Writing.route, hroute]
  refine ⟨fun hdirectory => (ht.dotted _ _ _ hdirectory).mp rfl (by simp), fun r hr hne content hfile => ?_⟩
  have hr := (List.prefix_concat_iff.mp hr).resolve_left hne
  rcases List.eq_nil_or_concat' r with rfl | ⟨front, c, rfl⟩
  · rw [List.append_nil, ht.there] at hfile
    cases hfile
  · have hmem : c ∈ directories ++ [file] := List.mem_append_left _ (hr.subset (by simp))
    cases (ht.dotted _ _ _ hfile).mpr (hall c hmem).2

/-- If two documents differ in their kinds, their formats or the components of their names, then their paths
below the output directory are different, and neither of them leads through the other one. So in an output
directory that is empty at first, whatever documents are written there and in which order: where a document
belongs there is never a directory, none of the directories that it needs is a file, and it is written and can
be read back unless its path is to blame, or that of a directory that it lies in. -/
theorem documents_never_obstruct :
    (∀ (kind kind' : Kind) (m n : Name) (format format' : Format), m.IsFlat → n.IsFlat →
      (kind, format, m.components) ≠ (kind', format', n.components) →
      let p := relativePath kind m format.extension
      let q := relativePath kind' n format'.extension
      p ≠ q ∧ p.steps ≠ q.steps ∧ (¬ p.IsBelow q ∧ ¬ q.IsBelow p) ∧ ¬ p.LiesIn q ∧ ¬ q.LiesIn p) ∧
    ∀ (l : Layout) (t : FileTree) (ws : List Writing) (w : Writing), l.IsFresh t →
      (∀ w' ∈ ws, w'.name.IsFlat) → w.name.IsFlat →
      let u := l.after t ws
      u.at? (l.home t ++ w.route) ≠ some .directory ∧
      (∀ r, r <+: w.route → r ≠ w.route → ∀ content, u.at? (l.home t ++ r) ≠ some (.file content)) ∧
      ∃ outcome v, (w.action l).run.run u = (outcome, v) ∧
        (outcome = .ok (w.path l) ∧ v.readText (w.path l) = .ok w.text ∨
          ∃ e, outcome = .error e ∧ e.Blames (w.path l)) := by
  refine ⟨fun kind kind' m n format format' hm hn hne => ?_, fun l t ws w ht hws hw => ?_⟩
  · obtain ⟨hbelow, hlies⟩ := relativePath_apart hm hn hne
    obtain ⟨hbelow', hlies'⟩ := relativePath_apart hn hm hne.symm
    have hsteps : (relativePath kind m format.extension).steps ≠ (relativePath kind' n format'.extension).steps :=
      fun h => hbelow ⟨[], by rw [h]; exact (List.append_nil _).symm⟩
    exact ⟨fun h => hsteps (congrArg Path.steps h), hsteps, ⟨hbelow, hbelow'⟩, hlies, hlies'⟩
  · have hafter := ht.tidy.after hws
    obtain ⟨hplace, hdirectories⟩ := hafter.route_free w
    rw [home_after] at hplace hdirectories
    refine ⟨hplace, hdirectories, ?_⟩
    cases hafter.action_safe hw with
    | ok hrun _ =>
      obtain ⟨rfl, hread⟩ := readText_of_write hrun
      exact ⟨_, _, hrun, Or.inl ⟨rfl, hread⟩⟩
    | error hrun _ he => exact ⟨_, _, hrun, Or.inr ⟨_, rfl, he⟩⟩

/-- A tree with an empty directory `out`. -/
def emptyOut : FileTree := ⟨[(["out".toList], .directory)], []⟩

theorem isFresh_emptyOut : IsFresh ⟨.ofString "out"⟩ emptyOut := by
  refine ⟨Or.inr (by decide), rfl, fun r hr => ?_⟩
  have hhome : home ⟨.ofString "out"⟩ emptyOut = ["out".toList] := by decide
  rw [hhome]
  simp [FileTree.at?, emptyOut, Keyed.find?, hr]

theorem documents_never_obstruct_emptyOut :
    Name.IsFlat ⟨"A"⟩ ∧ Name.IsFlat ⟨"A.B"⟩ ∧ IsFresh ⟨.ofString "out"⟩ emptyOut ∧
    ¬ (relativePath .module ⟨"A.B"⟩ "tex").IsBelow (relativePath .module ⟨"A"⟩ "tex") ∧
    (after ⟨.ofString "out"⟩ emptyOut [⟨.module, ⟨"A.B"⟩, "", .latex⟩]).at?
      (home ⟨.ofString "out"⟩ emptyOut ++ documentRoute .module ⟨"A"⟩ .latex) ≠ some .directory := by
  have hA : Name.IsFlat ⟨"A"⟩ := by decide
  have hAB : Name.IsFlat ⟨"A.B"⟩ := by decide
  obtain ⟨happart, hwritten⟩ := documents_never_obstruct
  obtain ⟨-, -, ⟨hbelow, -⟩, -⟩ := happart .module .module ⟨"A.B"⟩ ⟨"A"⟩ .latex .latex hAB hA (by decide)
  obtain ⟨hfree, -⟩ := hwritten ⟨.ofString "out"⟩ emptyOut [⟨.module, ⟨"A.B"⟩, "", .latex⟩]
    ⟨.module, ⟨"A"⟩, "", .latex⟩ isFresh_emptyOut (by simpa using hAB) hA
  exact ⟨hA, hAB, isFresh_emptyOut, hbelow, hfree⟩

end Layout

end Compendium
