import Compendium.Proofs.FileWrites

/-!
# Writing documents one by one

Writing all documents renders a module once and then writes both of its documents. It comes to the same
as writing the documents one after the other, each of them rendered right before (`writeAll_eq_writeEach`).
What a document puts in a tree of files (`writeModule_puts`) is carried over a list of documents by
induction (`writeEach_puts`): the ones before the first that fails are written, and nothing else changes
but directories that they and the failing one need.
-/

namespace Compendium

def documentsOf (modules : List Name) : List (Name × Format) :=
  modules.flatMap fun module => [(module, .latex), (module, .json)]

namespace Layout

def file (l : Layout) (d : Name × Format) : Path := l.pathFor .module d.1 d.2

section

variable {m : Type → Type} [Monad m] [FileSystem m]

/-- Writes documents one by one. Each of them is rendered right before it is written. -/
def writeEach (l : Layout) (s : Session) (ds : List (Name × Format)) : ExceptT ExportError m (List Path) :=
  ds.mapM fun d => l.writeModule s d.1 d.2

variable [LawfulMonad m]

theorem writeBoth_eq (l : Layout) (s : Session) (module : Name) :
    (l.writeBoth s module : ExceptT ExportError m (List Path)) =
      l.writeEach s [(module, .latex), (module, .json)] := by
  unfold writeBoth writeEach writeModule
  cases h : s.render module with
  | error e =>
    apply ExceptT.ext
    simp [orDocumentError, h]
  | ok documents => simp [orDocumentError, h, RenderedModule.text]

theorem writeAll_eq_writeEach (l : Layout) (s : Session) :
    (l.writeAll s : ExceptT ExportError m (List Path)) = l.writeEach s (documentsOf s.store.names) := by
  unfold writeAll documentsOf
  induction s.store.names with
  | nil => simp [writeEach]
  | cons module modules ih =>
    rw [List.flatMap_cons, writeEach, List.mapM_append, ← writeEach, ← writeEach, ← ih, ← writeBoth_eq]
    simp

end

/-! ### What is left in a tree -/

/-- `w` was put for one of the documents in `written`, or as a directory for one in `begun`. Nothing is
put for a document that cannot be rendered. -/
def PutFor (l : Layout) (s : Session) (t : FileTree) (written begun : List (Name × Format))
    (w : Place × FileEntry) : Prop :=
  (∃ d ∈ written, ∃ rendered, s.render d.1 = .ok rendered ∧ t.IsFile (l.file d) (rendered.text d.2) w) ∨
    ∃ d ∈ begun, (s.render d.1).isOk ∧ t.IsAbove (l.file d) w

/-- Writing documents on `t` ends with `outcome` and leaves `t'`. The documents in `written` are
written. If any are left over, then the first of them is what fails. -/
structure Stops (l : Layout) (s : Session) (t : FileTree) (written rest : List (Name × Format))
    (outcome : Except ExportError (List Path)) (t' : FileTree) : Prop where
  success : rest = [] → outcome = .ok (written.map l.file)
  failure : ∀ d ∈ rest.head?, ∃ t₁ e,
    (l.writeEach s written : OnTree (List Path)).run.run t = (.ok (written.map l.file), t₁) ∧
      (l.writeModule s d.1 d.2 : OnTree Path).run.run t₁ = (.error e, t') ∧ outcome = .error e

/-- What has changed then are written documents, and directories that were missing. A written document
lies in them, or the one that fails does, as long as it could be rendered. -/
structure Ends (l : Layout) (s : Session) (t : FileTree) (written rest : List (Name × Format))
    (outcome : Except ExportError (List Path)) (t' : FileTree) : Prop
    extends l.Stops s t written rest outcome t' where
  here : t'.here = t.here
  changes : ∀ q, t'.at? q ≠ t.at? q →
    (∃ d ∈ written, ∃ rendered, s.render d.1 = .ok rendered ∧ t'.place (l.file d) = .ok q ∧
      t'.at? q = some (.file (rendered.text d.2).toUTF8)) ∨
    (t.at? q = none ∧ t'.at? q = some .directory ∧
      ∃ d ∈ written ++ rest.take 1, (s.render d.1).isOk ∧ ∃ a, (l.file d).LiesIn a ∧ t'.place a = .ok q)

variable {l : Layout} {s : Session} {t u : FileTree} {d : Name × Format}
  {written begun written' begun' rest : List (Name × Format)} {w : Place × FileEntry}
  {ws : Keyed Place FileEntry}

theorem PutFor.mono (h : l.PutFor s t written begun w) (ht : t.Grows u) (hw : written ⊆ written')
    (hb : begun ⊆ begun') : l.PutFor s u written' begun' w := by
  rcases h with ⟨d, hd, rendered, hrender, hfile⟩ | ⟨d, hd, hrender, habove⟩
  · exact Or.inl ⟨d, hw hd, rendered, hrender, ht.isFile hfile⟩
  · exact Or.inr ⟨d, hb hd, hrender, ht.isAbove habove⟩

theorem writeModule_puts (l : Layout) (s : Session) (d : Name × Format) (t : FileTree) :
    ∃ r ws, Puts (l.writeModule s d.1 d.2).run t r ws ∧ (r.isOk → r = .ok (l.file d)) ∧
      ∀ w ∈ ws, l.PutFor s (t.make ws) (if r.isOk then [d] else []) [d] w := by
  unfold writeModule
  cases h : s.render d.1 with
  | error e =>
    exact ⟨.error (.document e), [], ⟨rfl, trivial, nofun⟩, nofun, fun w hw => absurd hw List.not_mem_nil⟩
  | ok rendered =>
    rw [orDocumentError, pure_bind]
    obtain ⟨r, ws, hputs, hws, hr⟩ := writeFile_puts (l.file d) (rendered.text d.2) t
    refine ⟨r, ws, hputs, fun hok => (hr hok).1, fun w hw => ?_⟩
    rcases hws w hw with habove | ⟨hok, hfile⟩
    · exact Or.inr ⟨d, List.mem_cons_self .., by rw [h]; rfl, habove⟩
    · rw [if_pos hok]
      exact Or.inl ⟨d, List.mem_cons_self .., rendered, h, hfile⟩

theorem writeEach_cons (l : Layout) (s : Session) (d : Name × Format) (ds : List (Name × Format)) :
    (l.writeEach s (d :: ds) : OnTree (List Path)) =
      l.writeModule s d.1 d.2 >>= fun p => l.writeEach s ds >>= fun ps => pure (p :: ps) :=
  List.mapM_cons

theorem writeEach_puts (l : Layout) (s : Session) (ds : List (Name × Format)) (t : FileTree) :
    ∃ written rest r ws, written ++ rest = ds ∧ Puts (l.writeEach s ds).run t r ws ∧
      l.Stops s t written rest r (t.make ws) ∧
      ∀ w ∈ ws, l.PutFor s (t.make ws) written (written ++ rest.take 1) w := by
  induction ds generalizing t with
  | nil =>
    exact ⟨[], [], .ok [], [], rfl, .pure _, ⟨fun _ => rfl, nofun⟩, fun w hw => absurd hw List.not_mem_nil⟩
  | cons d ds ih =>
    rw [writeEach_cons]
    obtain ⟨r, ws, hputs, hr, hws⟩ := writeModule_puts l s d t
    cases r with
    | error e =>
      refine ⟨[], d :: ds, .error e, ws, rfl, hputs.bind_error, ⟨nofun, fun d' hd' => ?_⟩, hws⟩
      obtain rfl := Option.mem_some.mp hd'
      exact ⟨t, e, rfl, hputs.run, rfl⟩
    | ok p =>
      obtain rfl : p = l.file d := Except.ok.inj (hr rfl)
      obtain ⟨written, rest, r', ws', rfl, hputs', hstops, hws'⟩ := ih (t.make ws)
      refine ⟨d :: written, rest, r'.map (l.file d :: ·), ws ++ ws', rfl, hputs.bind (hputs'.map _),
        ⟨fun hrest => by rw [hstops.success hrest]; rfl, fun d' hd' => ?_⟩, fun w hw => ?_⟩
      · obtain ⟨t₂, e, hwritten, hfails, rfl⟩ := hstops.failure d' hd'
        refine ⟨t₂, e, ?_, by rwa [FileTree.make_append], rfl⟩
        rw [writeEach_cons, run_bind, hputs.run]
        dsimp only
        rw [run_bind, hwritten]
        rfl
      · rw [FileTree.make_append]
        rcases List.mem_append.mp hw with hw | hw
        · have hd : [d] ⊆ d :: written := List.cons_subset_cons d (List.nil_subset _)
          exact (hws w hw).mono hputs'.fits.grows hd fun _ hw => List.mem_append_left _ (hd hw)
        · exact (hws' w hw).mono (.refl _) (List.subset_cons_self ..) (List.subset_cons_self ..)

theorem writeEach_ends (l : Layout) (s : Session) (ds : List (Name × Format)) (t : FileTree) :
    ∃ outcome t', (l.writeEach s ds : OnTree (List Path)).run.run t = (outcome, t') ∧
      (outcome.isOk → (l.writeEach s ds : OnTree (List Path)).run.run t' = (outcome, t')) ∧
      ∃ written rest, written ++ rest = ds ∧ l.Ends s t written rest outcome t' := by
  obtain ⟨written, rest, r, ws, hds, hputs, hstops, hws⟩ := writeEach_puts l s ds t
  refine ⟨r, t.make ws, hputs.run, hputs.again_self, written, rest, hds, hstops, rfl, fun q hq => ?_⟩
  obtain ⟨e, he, hthere⟩ := (t.at?_make ws q).resolve_left hq
  rcases hws _ he with ⟨d, hd, rendered, hrender, rfl, hplace⟩ | ⟨d, hd, hrender, rfl, a, ha, hplace⟩
  · exact Or.inl ⟨d, hd, rendered, hrender, hplace, hthere⟩
  · exact Or.inr ⟨hputs.fits.missing hthere hq, hthere, d, hd, hrender, a, ha, hplace⟩

/-- A document that cannot be rendered ends the writing right after the documents before it. -/
theorem writeEach_of_render_error {e : Error} (h : s.render d.1 = .error e) (before after : List (Name × Format))
    (t : FileTree) :
    ∃ r t', (l.writeEach s before : OnTree (List Path)).run.run t = (r, t') ∧
      (l.writeEach s (before ++ d :: after) : OnTree (List Path)).run.run t =
        (r.bind fun _ => .error (.document e), t') := by
  rw [writeEach, writeEach, List.mapM_append, ← writeEach, run_bind]
  rcases (l.writeEach s before : OnTree (List Path)).run.run t with ⟨_ | _, t'⟩
  · exact ⟨_, t', rfl, rfl⟩
  · refine ⟨_, t', rfl, ?_⟩
    dsimp only
    rw [← writeEach, writeEach_cons, writeModule, h]
    rfl

/-- Writing all documents is the same as writing them one by one, both in what is given and in the tree
that is left. A module that cannot be rendered leaves the tree to the documents of the modules before
it. After a success, the same once more gives the same and leaves the tree as it is. -/
theorem writeAll_is_one_by_one (l : Layout) (s : Session) (t : FileTree) :
    ∃ outcome t',
      (l.writeAll s : OnTree (List Path)).run.run t = (outcome, t') ∧
      (l.writeEach s (documentsOf s.store.names) : OnTree (List Path)).run.run t = (outcome, t') ∧
      (∀ paths, outcome = .ok paths → paths = s.store.names.flatMap l.documents ∧
        (l.writeAll s : OnTree (List Path)).run.run t' = (.ok paths, t')) ∧
      (∀ before module after e, s.store.names = before ++ module :: after → s.render module = .error e →
        ∃ r, (l.writeEach s (documentsOf before) : OnTree (List Path)).run.run t = (r, t') ∧
          outcome = r.bind fun _ => .error (.document e)) ∧
      ∃ written rest, written ++ rest = documentsOf s.store.names ∧ l.Ends s t written rest outcome t' := by
  obtain ⟨outcome, t', hrun, hagain, hends⟩ := writeEach_ends l s (documentsOf s.store.names) t
  rw [← writeAll_eq_writeEach] at hrun hagain
  refine ⟨outcome, t', hrun, writeAll_eq_writeEach (m := StateM FileTree) l s ▸ hrun, ?_, ?_, hends⟩
  · rintro paths rfl
    exact ⟨l.writeAll_gives s t paths t' hrun, hagain rfl⟩
  · intro before module after e hnames hrender
    have hdocuments : documentsOf s.store.names =
        documentsOf before ++ (module, .latex) :: (module, .json) :: documentsOf after := by
      rw [hnames, documentsOf, List.flatMap_append, List.flatMap_cons]
      rfl
    obtain ⟨r, t₁, hbefore, hstop⟩ := writeEach_of_render_error (l := l) (d := (module, .latex)) hrender
      (documentsOf before) ((module, .json) :: documentsOf after) t
    rw [← hdocuments, ← writeAll_eq_writeEach, hrun, Prod.mk.injEq] at hstop
    obtain ⟨rfl, rfl⟩ := hstop
    exact ⟨r, hbefore, rfl⟩

end Layout

namespace Session

/-- An empty module whose documents would have a name that no file can have. -/
def nulInName : Manifest := { Manifest.empty with modules := [⟨⟨"A.\x00"⟩, [], []⟩] }

def nulInPath : Path := .ofString "out/module/A/\x00.tex"

def outModuleA : Keyed Place FileEntry :=
  [["out"], ["out", "module"], ["out", "module", "A"]].map fun place => (place.map String.toList, .directory)

theorem makeDirectories_outModuleA :
    (FileSystem.makeDirectories (.ofString "out/module/A") : TreeAction).run .empty =
      (.ok (), FileTree.empty.make outModuleA) := by
  have hout : (FileSystem.makeDirectories (.ofString "out") : TreeAction).run .empty =
      (.ok (), FileTree.empty.make (outModuleA.take 1)) := by
    rw [FileSystem.makeDirectories_run]
    rfl
  have hmodules : (FileSystem.makeDirectories (.ofString "out/module") : TreeAction).run .empty =
      (.ok (), FileTree.empty.make (outModuleA.take 2)) :=
    (FileSystem.makeDirectories_of_notFound (by decide) rfl hout).trans rfl
  exact (FileSystem.makeDirectories_of_notFound (by decide) rfl hmodules).trans rfl

theorem writeFile_nulInPath (text : String) :
    (writeFile nulInPath text : OnTree Path).run.run .empty =
      (.error (.write nulInPath .nulInPath), FileTree.empty.make outModuleA) := by
  have hparent : nulInPath.parent? = some (.ofString "out/module/A") := by decide
  rw [writeFile_run hparent, makeDirectories_outModuleA]
  rfl

/-- The directories for a document that cannot be written are made, and stay. -/
theorem writeAll_leaves_directories :
    ∃ s t', ofManifest nulInName = .ok s ∧
      (Layout.writeAll ⟨.ofString "out"⟩ s : OnTree (List Path)).run.run .empty =
        (.error (.write (.ofString "out/module/A/\x00.tex") .nulInPath), t') ∧
      (∀ q content, t'.at? q ≠ some (.file content)) ∧
      FileTree.empty.at? ["out".toList] = none ∧ t'.at? ["out".toList] = some .directory := by
  obtain ⟨s, hs, hnames, hcontents⟩ : ∃ s, ofManifest nulInName = .ok s ∧ s.store.names = [⟨"A.\x00"⟩] ∧
      s.store.contents ⟨"A.\x00"⟩ = .ok ⟨[], [], true⟩ := ⟨_, rfl, rfl, rfl⟩
  obtain ⟨documents, hrender⟩ : ∃ documents, s.render ⟨"A.\x00"⟩ = .ok documents := by
    have hitems : s.items ⟨"A.\x00"⟩ = .ok [] := by
      rw [items, Store.items, hcontents]
      simp [Contents.items, Contents.positioned, bind, Except.bind, pure, Except.pure]
    rw [render, hitems]
    exact ⟨_, rfl⟩
  refine ⟨s, FileTree.empty.make outModuleA, hs, ?_, fun q content h => ?_, rfl, rfl⟩
  · have hpath : Layout.pathFor ⟨.ofString "out"⟩ .module ⟨"A.\x00"⟩ .latex = nulInPath := by decide
    rw [Layout.writeAll_eq_writeEach, hnames, documentsOf, List.flatMap_cons, List.cons_append,
      Layout.writeEach_cons, run_bind, Layout.writeModule, hrender, orDocumentError, pure_bind, Layout.write,
      hpath, RenderedModule.text, writeFile_nulInPath]
    rfl
  · rcases FileTree.empty.at?_make outModuleA q with hq | ⟨e, he, hq⟩
    · rw [hq, FileTree.at?] at h
      split at h <;> cases h
    · rw [hq] at h
      cases h
      simp [outModuleA] at he

end Session

end Compendium
