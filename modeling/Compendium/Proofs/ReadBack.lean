import Compendium.Proofs.OneByOne
import Compendium.Proofs.TidyTree

/-!
# What can be read back

A file stays as it was written until another one is put in its place (`find_of_writeFile`), so where several documents
have one place, it is the last of them that can be read (`Layout.reads_of_stops`). The place of a document without its
extension is its stem (`Layout.stem`), and two modules have a file in common exactly if they have one stem
(`Layout.apart_iff_stem_ne`). Different names do not rule this out: an empty segment leaves no trace in a stem.
-/

namespace Compendium

/-! ### Spots -/

/-- The directory that a step leads to from another one. -/
def Path.Step.go (d : Place) : Path.Step → Place
  | root => []
  | here => d
  | up => d.dropLast
  | into c => d ++ [c]

namespace FileTree

variable {t u : FileTree} {p q : Path} {d : Place}

theorem foldl_step_eq (cs : List (List Char)) (d : Place) :
    cs.foldl step d = ((cs.filter (· ≠ ['.'])).map Path.Step.ofComponent).foldl Path.Step.go d := by
  induction cs generalizing d with
  | nil => rfl
  | cons c cs ih =>
    rw [List.foldl_cons, ih, step]
    by_cases hdot : c = ['.']
    · rw [if_pos hdot, List.filter_cons_of_neg (by simpa using hdot)]
    · rw [if_neg hdot, List.filter_cons_of_pos (by simpa using hdot), List.map_cons, List.foldl_cons,
        Path.Step.ofComponent]
      split <;> rfl

/-- Paths with the same steps name the same place. -/
theorem spot_eq_foldl (t : FileTree) (p : Path) : t.spot p = p.steps.foldl Path.Step.go t.here := by
  rw [spot, start, foldl_step_eq, Path.steps, List.foldl_append]
  split
  · rfl
  · split <;> rfl

theorem spot_congr (h : u.here = t.here) (p : Path) : u.spot p = t.spot p := by
  rw [spot, spot, start, start, h]

/-- A path without dots goes on from where the path before it leads, or begins at the root. -/
theorem spot_join (hq : ∀ c ∈ q.components, Path.IsPlain c) (t : FileTree) (p : Path) :
    t.spot (p.join q) = (if q.isAbsolute then [] else t.spot p) ++ q.components := by
  by_cases habs : q.isAbsolute = true
  · rw [Path.join_of_isAbsolute habs, if_pos habs, spot, start, if_pos habs, foldl_step_of_plain hq]
  · rw [Bool.not_eq_true] at habs
    rw [habs, if_neg Bool.false_ne_true, spot, spot, start, start, Path.isAbsolute_join, habs, Bool.or_false,
      Path.components_join habs, List.foldl_append, foldl_step_of_plain hq]

end FileTree

/-! ### Stems -/

namespace Layout

variable {l : Layout} {t : FileTree} {kind kind' : Kind} {a b : Name} {format format' : Format}

/-- The place of a document but for the extension of its file. -/
def stem (l : Layout) (t : FileTree) (kind : Kind) (n : Name) : Place :=
  t.spot (l.base.join (Path.joinAll (.ofString kind.directory) n.segments))

theorem stem_eq (l : Layout) (t : FileTree) (kind : Kind) (n : Name) :
    l.stem t kind n = (if (Path.joinAll (.ofString kind.directory) n.segments).isAbsolute then [] else l.home t) ++
      (Path.joinAll (.ofString kind.directory) n.segments).components :=
  FileTree.spot_join (fun _ hc => isPlain_of_not_mem (mem_components_joinAll_segments hc).2) t l.base

theorem isAbsolute_joinAll_segments_iff (kind : Kind) (n : Name) :
    (Path.joinAll (.ofString kind.directory) n.segments).isAbsolute = true ↔ n.IsRooted := by
  rw [← isAbsolute_relativePath_iff kind n "", relativePath_eq, Path.isAbsolute_addExtension]

theorem stem_of_not_isRooted (h : ¬ a.IsRooted) (l : Layout) (t : FileTree) (kind : Kind) :
    l.stem t kind a = l.home t ++ kind.directory.toList :: a.route := by
  rw [stem_eq, if_neg (mt (isAbsolute_joinAll_segments_iff kind a).mp h), components_joinAll_segments h]

theorem stem_inj (ha : ¬ a.IsRooted) (hb : ¬ b.IsRooted) : l.stem t kind a = l.stem t kind b ↔ a.route = b.route := by
  rw [stem_of_not_isRooted ha, stem_of_not_isRooted hb, List.append_cancel_left_eq, List.cons.injEq]
  exact and_iff_right rfl

/-- The extension of a document is put behind its stem. -/
theorem spot_pathFor (l : Layout) (t : FileTree) (kind : Kind) (n : Name) (format : Format) :
    t.spot (l.pathFor kind n format) = (l.stem t kind n).modifyLast (· ++ '.' :: format.extension.toList) := by
  rw [pathFor, FileTree.spot_join fun _ => isPlain_of_mem_relativePath, stem_eq, relativePath_eq,
    Path.isAbsolute_addExtension, Path.components_addExtension format.mem_extension.1 format.mem_extension.2.1]
  by_cases hn : n.IsRooted
  · have habs := (isAbsolute_joinAll_segments_iff kind n).mpr hn
    rw [if_pos habs, if_pos habs]
    rfl
  · rw [components_joinAll_segments hn, List.modifyLast_append_of_right_ne_nil _ _ _ (List.cons_ne_nil _ _)]
    rfl

/-- Only a name that leads to the root has no component in its stem. -/
theorem stem_cases (l : Layout) (t : FileTree) (kind : Kind) (n : Name) :
    l.stem t kind n = [] ∨ ∃ directories file, l.stem t kind n = directories ++ [file] ∧ '.' ∉ file := by
  rw [stem_eq]
  rcases List.eq_nil_or_concat' (Path.joinAll (.ofString kind.directory) n.segments).components with
    hnil | ⟨directories, file, hcomponents⟩
  · refine Or.inl ?_
    by_cases hn : n.IsRooted
    · rw [if_pos ((isAbsolute_joinAll_segments_iff kind n).mpr hn), hnil]
      rfl
    · cases (components_joinAll_segments hn kind).symm.trans hnil
  · have hfile : file ∈ (Path.joinAll (.ofString kind.directory) n.segments).components := by simp [hcomponents]
    exact Or.inr ⟨_, file, by rw [hcomponents, List.append_assoc], (mem_components_joinAll_segments hfile).2⟩

/-- Two documents are put in one place only if they have one stem and, unless there is no component for an extension,
one format. -/
theorem spot_pathFor_inj (h : t.spot (l.pathFor kind a format) = t.spot (l.pathFor kind b format')) :
    l.stem t kind a = l.stem t kind b ∧ (format = format' ∨ l.stem t kind a = []) := by
  rw [spot_pathFor, spot_pathFor] at h
  rcases l.stem_cases t kind a with ha | ⟨directories, file, ha, hfile⟩ <;>
    rcases l.stem_cases t kind b with hb | ⟨directories', file', hb, -⟩
  · exact ⟨ha.trans hb.symm, Or.inr ha⟩
  · rw [ha, hb, List.modifyLast_concat] at h
    cases List.append_ne_nil_of_right_ne_nil _ (List.cons_ne_nil _ _) h.symm
  · rw [ha, hb, List.modifyLast_concat] at h
    cases List.append_ne_nil_of_right_ne_nil _ (List.cons_ne_nil _ _) h
  · rw [ha, hb, List.modifyLast_concat, List.modifyLast_concat] at h
    obtain ⟨rfl, hlast⟩ := List.append_inj' h rfl
    obtain ⟨rfl, hformat⟩ := Format.append_extension_inj hfile (List.singleton_injective hlast)
    exact ⟨ha.trans hb.symm, Or.inl hformat⟩

end Layout

/-! ### Reading -/

section Reading

variable {t u : FileTree} {p q : Path} {text : String} {content : ByteArray}

theorem here_of_writeFile {r : Except ExportError Path} (h : (writeFile p text : OnTree Path).run.run t = (r, u)) :
    u.here = t.here := by
  obtain ⟨r', ws, hputs, -⟩ := writeFile_puts p text t
  obtain ⟨-, rfl⟩ := Prod.mk.inj (hputs.run.symm.trans h)
  exact hputs.fits.grows.here

/-- A file stays as it is until another one is put in its place. -/
theorem find_of_writeFile {r : Except ExportError Path} (h : (writeFile p text : OnTree Path).run.run t = (r, u))
    (hq : t.find q = .ok (.file content)) :
    u.find q = .ok (.file (if r.isOk ∧ t.spot p = t.spot q then text.toUTF8 else content)) := by
  obtain ⟨r', ws, hputs, hws, hr⟩ := writeFile_puts p text t
  obtain ⟨rfl, rfl⟩ := Prod.mk.inj (hputs.run.symm.trans h)
  obtain ⟨place, hplace, hat⟩ := FileTree.find_eq_ok_iff.mp hq
  obtain rfl : place = t.spot q := FileTree.place_eq hplace
  have hgrows := hputs.fits.grows
  refine FileTree.find_eq_ok_iff.mpr ⟨_, hgrows.place hplace, ?_⟩
  split
  · rename_i hsame
    obtain ⟨place', hplace', hat'⟩ := FileTree.find_eq_ok_iff.mp (hr hsame.1).2
    rw [FileTree.place_eq hplace'] at hat'
    rwa [← hsame.2, ← FileTree.spot_congr hgrows.here]
  · rename_i hother
    rcases t.at?_make ws (t.spot q) with hsame | ⟨e, he, hput⟩
    · rw [hsame, hat]
    · rcases hws _ he with ⟨rfl, -⟩ | ⟨hok, rfl, hplace'⟩
      · -- a directory does not take the place of a file
        obtain ⟨e', he', hkind⟩ := hgrows.kind _ _ hat
        rw [hput, Option.some.injEq] at he'
        rw [← he'] at hkind
        cases hkind
      · exact absurd ⟨hok, ((FileTree.spot_congr hgrows.here p).symm.trans (FileTree.place_eq hplace').symm)⟩ hother

theorem find_of_writeFile_ok (h : (writeFile p text : OnTree Path).run.run t = (.ok q, u)) :
    u.find p = .ok (.file text.toUTF8) := by
  obtain ⟨r, ws, hputs, -, hr⟩ := writeFile_puts p text t
  obtain ⟨rfl, rfl⟩ := Prod.mk.inj (hputs.run.symm.trans h)
  exact (hr rfl).2

end Reading

namespace Layout

variable {l : Layout} {s : Session} {t u v : FileTree} {d e : Name × Format} {ds : List (Name × Format)}

/-- The last of the documents that are put in the place of a path. -/
def lastAt (l : Layout) (t : FileTree) (ds : List (Name × Format)) (p : Path) : Option (Name × Format) :=
  (ds.filter fun d => t.spot (l.file d) = t.spot p).getLast?

theorem lastAt_concat (l : Layout) (t : FileTree) (ds : List (Name × Format)) (d : Name × Format) (p : Path) :
    l.lastAt t (ds ++ [d]) p = if t.spot (l.file d) = t.spot p then some d else l.lastAt t ds p := by
  rw [lastAt, lastAt, List.filter_append]
  by_cases h : t.spot (l.file d) = t.spot p
  · rw [if_pos h, List.filter_cons_of_pos (by simpa using h), List.filter_nil, List.getLast?_concat]
  · rw [if_neg h, List.filter_cons_of_neg (by simpa using h), List.filter_nil, List.append_nil]

theorem mem_of_lastAt {p : Path} (h : l.lastAt t ds p = some d) : d ∈ ds ∧ t.spot (l.file d) = t.spot p := by
  simpa using List.mem_filter.mp (List.mem_of_getLast? h)

/-- In `u`, which comes of writing the documents on `t`, the path of each leads to what was put there last. -/
structure Reads (l : Layout) (s : Session) (t : FileTree) (ds : List (Name × Format)) (u : FileTree) : Prop where
  here : u.here = t.here
  find : ∀ d ∈ ds, ∃ last rendered, l.lastAt t ds (l.file d) = some last ∧ s.render last.1 = .ok rendered ∧
    u.find (l.file d) = .ok (.file (rendered.text last.2).toUTF8)

theorem writeModule_cases (l : Layout) (s : Session) (d : Name × Format) (t : FileTree) :
    (∃ e, (l.writeModule s d.1 d.2 : OnTree Path).run.run t = (.error e, t)) ∨
      ∃ rendered, s.render d.1 = .ok rendered ∧
        (l.writeModule s d.1 d.2 : OnTree Path) = writeFile (l.file d) (rendered.text d.2) := by
  unfold writeModule
  cases s.render d.1 with
  | error e => exact Or.inl ⟨_, rfl⟩
  | ok rendered =>
    rw [orDocumentError, pure_bind]
    exact Or.inr ⟨rendered, rfl, rfl⟩

/-- What fails takes the place of no document. -/
theorem Reads.of_error {e : ExportError} (h : l.Reads s t ds u)
    (hrun : (l.writeModule s d.1 d.2 : OnTree Path).run.run u = (.error e, v)) : l.Reads s t ds v := by
  rcases l.writeModule_cases s d u with ⟨e', hfails⟩ | ⟨rendered, -, hwrites⟩
  · obtain ⟨-, rfl⟩ := Prod.mk.inj (hfails.symm.trans hrun)
    exact h
  · rw [hwrites] at hrun
    refine ⟨(here_of_writeFile hrun).trans h.here, fun d' hd' => ?_⟩
    obtain ⟨last, rendered', hlast, hrender, hfind⟩ := h.find d' hd'
    have hnow := find_of_writeFile hrun hfind
    rw [if_neg fun hok => Bool.false_ne_true hok.1] at hnow
    exact ⟨last, rendered', hlast, hrender, hnow⟩

theorem Reads.concat {p : Path} (h : l.Reads s t ds u)
    (hrun : (l.writeModule s d.1 d.2 : OnTree Path).run.run u = (.ok p, v)) : l.Reads s t (ds ++ [d]) v := by
  rcases l.writeModule_cases s d u with ⟨e, hfails⟩ | ⟨rendered, hrender, hwrites⟩
  · cases hfails.symm.trans hrun
  rw [hwrites] at hrun
  refine ⟨(here_of_writeFile hrun).trans h.here, fun d' hd' => ?_⟩
  rw [lastAt_concat]
  rcases List.mem_append.mp hd' with hd' | hd'
  · obtain ⟨last, rendered', hlast, hrender', hfind⟩ := h.find d' hd'
    have hnow := find_of_writeFile hrun hfind
    rw [FileTree.spot_congr h.here, FileTree.spot_congr h.here] at hnow
    by_cases hsame : t.spot (l.file d) = t.spot (l.file d')
    · rw [if_pos ⟨rfl, hsame⟩] at hnow
      exact ⟨d, rendered, if_pos hsame, hrender, hnow⟩
    · rw [if_neg fun h => hsame h.2] at hnow
      exact ⟨last, rendered', (if_neg hsame).trans hlast, hrender', hnow⟩
  · obtain rfl := List.mem_singleton.mp hd'
    exact ⟨d', rendered, if_pos rfl, hrender, find_of_writeFile_ok hrun⟩

theorem run_bind_eq_ok {α β : Type} {x : OnTree α} {f : α → OnTree β} {b : β} (h : (x >>= f).run.run t = (.ok b, v)) :
    ∃ a u, x.run.run t = (.ok a, u) ∧ (f a).run.run u = (.ok b, v) := by
  rw [run_bind] at h
  rcases hx : x.run.run t with ⟨e | a, u⟩
  · rw [hx] at h
    cases h
  · rw [hx] at h
    exact ⟨a, u, rfl, h⟩

theorem reads_of_writeEach {ps : List Path} (h : (l.writeEach s ds : OnTree (List Path)).run.run t = (.ok ps, u)) :
    l.Reads s t ds u := by
  induction ds using List.reverseRecOn generalizing ps u with
  | nil =>
    cases h
    exact ⟨rfl, fun _ hd => absurd hd List.not_mem_nil⟩
  | append_singleton ds d ih =>
    rw [writeEach, List.mapM_append, ← writeEach, ← writeEach, writeEach_cons] at h
    obtain ⟨_, t₁, hfront, h⟩ := run_bind_eq_ok h
    obtain ⟨_, t₂, hlast, h⟩ := run_bind_eq_ok h
    obtain ⟨_, t₃, hmodule, hrest⟩ := run_bind_eq_ok hlast
    cases hrest
    cases h
    exact (ih hfront).concat hmodule

theorem mem_names_of_mem_documentsOf {names : List Name} (h : d ∈ documentsOf names) : d.1 ∈ names := by
  obtain ⟨a, ha, hd⟩ := List.mem_flatMap.mp h
  simp only [List.mem_cons, List.not_mem_nil, or_false] at hd
  rcases hd with rfl | rfl <;> exact ha

/-- Wherever the writing of documents stops, those that were written can be read. -/
theorem reads_of_stops {written rest : List (Name × Format)} {outcome : Except ExportError (List Path)}
    (hrun : (l.writeEach s (written ++ rest) : OnTree (List Path)).run.run t = (outcome, u))
    (h : l.Stops s t written rest outcome u) : l.Reads s t written u := by
  cases rest with
  | nil =>
    rw [List.append_nil, h.success rfl] at hrun
    exact reads_of_writeEach hrun
  | cons d rest =>
    obtain ⟨t₁, e, hwritten, hfails, -⟩ := h.failure d rfl
    exact (reads_of_writeEach hwritten).of_error hfails

/-- Only documents of modules with the same stem can be in a document's place. -/
theorem Reads.stem_eq (h : l.Reads s t ds u) (hd : d ∈ ds) (hlast : l.lastAt t ds (l.file d) = some e) :
    l.stem t .module e.1 = l.stem t .module d.1 ∧ e.2 = d.2 := by
  obtain ⟨-, hspot⟩ := mem_of_lastAt hlast
  obtain ⟨hstem, hformat | hnil⟩ := spot_pathFor_inj hspot
  · exact ⟨hstem, hformat⟩
  · -- the root is no file
    obtain ⟨_, rendered, -, -, hfind⟩ := h.find d hd
    obtain ⟨place, hplace, hat⟩ := FileTree.find_eq_ok_iff.mp hfind
    have hroot : t.spot (l.file d) = [] := by
      rw [file, spot_pathFor, ← hstem, hnil]
      rfl
    rw [FileTree.place_eq hplace, ← FileTree.start, ← FileTree.spot, FileTree.spot_congr h.here, hroot] at hat
    cases hat

theorem Reads.readText (h : l.Reads s t ds u) (hd : d ∈ ds) :
    ∃ last rendered, l.lastAt t ds (l.file d) = some last ∧
      l.stem t .module last.1 = l.stem t .module d.1 ∧ last.2 = d.2 ∧
      s.render last.1 = .ok rendered ∧ u.readText (l.file d) = .ok (rendered.text last.2) := by
  obtain ⟨last, rendered, hlast, hrender, hfind⟩ := h.find d hd
  obtain ⟨hstem, hformat⟩ := h.stem_eq hd hlast
  exact ⟨last, rendered, hlast, hstem, hformat, hrender, FileTree.readText_of_find hfind⟩

theorem apart_iff_stem_ne (l : Layout) (t : FileTree) (a b : Name) :
    (∀ p ∈ l.documents a, ∀ q ∈ l.documents b, p.steps ≠ q.steps ∧ t.spot p ≠ t.spot q) ↔
      l.stem t .module a ≠ l.stem t .module b := by
  constructor
  · intro h hstem
    refine (h _ (mem_documents.mpr ⟨.latex, rfl⟩) _ (mem_documents.mpr ⟨.latex, rfl⟩)).2 ?_
    rw [spot_pathFor, spot_pathFor, hstem]
  · intro hstem p hp q hq
    obtain ⟨format, rfl⟩ := mem_documents.mp hp
    obtain ⟨format', rfl⟩ := mem_documents.mp hq
    have hspot : t.spot (l.pathFor .module a format) ≠ t.spot (l.pathFor .module b format') := fun h =>
      hstem (spot_pathFor_inj h).1
    refine ⟨fun hsteps => hspot ?_, hspot⟩
    rw [FileTree.spot_eq_foldl, FileTree.spot_eq_foldl, hsteps]

/-! ### Writing that succeeds -/

theorem writeModule_run {rendered : RenderedModule} {a : Path} {q : Place} (d : Name × Format)
    (hrender : s.render d.1 = .ok rendered) (ha : (l.file d).parent? = some a)
    (hmake : (FileSystem.makeDirectories a : TreeAction).run t = (.ok (), u)) (hplace : u.place (l.file d) = .ok q)
    (hfree : u.at? q ≠ some .directory) :
    (l.writeModule s d.1 d.2 : OnTree Path).run.run t =
      (.ok (l.file d), u.put q (.file (rendered.text d.2).toUTF8)) := by
  have hwrite : u.writeText (l.file d) (rendered.text d.2) = .ok (u.put q (.file (rendered.text d.2).toUTF8)) :=
    FileTree.writeText_eq_ok_iff.mpr ⟨q, hplace, hfree, rfl⟩
  have htext : (FileSystem.writeText (l.file d) (rendered.text d.2) : TreeAction).run u = (.ok (), _) :=
    (changeState_run (fun u => u.writeText (l.file d) (rendered.text d.2)) u).trans (by rw [hwrite])
  rw [writeModule, hrender, orDocumentError, pure_bind]
  refine (writeFile_run ha _ _).trans ?_
  rw [hmake]
  dsimp only
  rw [htext]

/-- Nothing keeps a document from being written: the directory that it lies in is there, and it would not take the
place of a directory. -/
structure Ready (l : Layout) (s : Session) (t : FileTree) (d : Name × Format) : Prop where
  renders : ∃ rendered, s.render d.1 = .ok rendered
  parent : ∃ a, (l.file d).parent? = some a ∧ t.HasDirectory a
  free : ∃ q, t.place (l.file d) = .ok q ∧ t.at? q ≠ some .directory

theorem Ready.put {q : Place} {text : ByteArray} (h : l.Ready s t d) (hq : t.at? q ≠ some .directory) :
    l.Ready s (t.put q (.file text)) d := by
  have hne := FileTree.ne_nil_of_at? hq
  have hgrows : t.Grows (t.put q (.file text)) := by
    refine FileTree.Fits.put_grows hne fun e he => ?_
    cases e with
    | directory => exact absurd he hq
    | file _ => rfl
  obtain ⟨a, ha, hthere⟩ := h.parent
  obtain ⟨q', hplace, hfree⟩ := h.free
  refine ⟨h.renders, ⟨a, ha, hthere.imp_right hgrows.isDirectory⟩, q', hgrows.place hplace, ?_⟩
  rw [FileTree.at?_put t hne]
  split
  · nofun
  · exact hfree

theorem writeEach_of_ready (h : ∀ d ∈ ds, l.Ready s t d) :
    ∃ u, (l.writeEach s ds : OnTree (List Path)).run.run t = (.ok (ds.map l.file), u) := by
  induction ds generalizing t with
  | nil => exact ⟨t, rfl⟩
  | cons d ds ih =>
    obtain ⟨hd, hds⟩ := List.forall_mem_cons.mp h
    obtain ⟨rendered, hrender⟩ := hd.renders
    obtain ⟨a, ha, hthere⟩ := hd.parent
    obtain ⟨q, hplace, hfree⟩ := hd.free
    have hrun := writeModule_run d hrender ha (FileSystem.makeDirectories_of_hasDirectory hthere) hplace hfree
    obtain ⟨u, hu⟩ := ih fun d' hd' => (hds d' hd').put hfree
    refine ⟨u, ?_⟩
    rw [writeEach_cons, run_bind, hrun]
    dsimp only
    rw [run_bind, hu]
    rfl

end Layout

namespace Session

open Layout in
/-- The modules of a loaded session have different names, but it is their stems that tell their files apart: two
modules have a file in common exactly if they have one stem, and as long as no segment begins with a slash, this is so
exactly if their names have one route. Writing them all takes the documents in their order up to the first that fails.
What can be read in the end at the path of a document that was written is the last one of those of its stem and format,
which is the document itself if no other module has the stem. -/
theorem documents_kept_unless_stem_eq (m : Manifest) (s : Session) (h : ofManifest m = .ok s) (l : Layout)
    (t : FileTree) :
    s.store.names.Nodup ∧
    (∀ a b, (∀ p ∈ l.documents a, ∀ q ∈ l.documents b, p.steps ≠ q.steps ∧ t.spot p ≠ t.spot q) ↔
      l.stem t .module a ≠ l.stem t .module b) ∧
    (∀ a b, ¬ a.IsRooted → ¬ b.IsRooted → (l.stem t .module a = l.stem t .module b ↔ a.route = b.route)) ∧
    ∃ outcome t', (l.writeAll s : OnTree (List Path)).run.run t = (outcome, t') ∧
      (∀ paths, outcome = .ok paths → paths = s.store.names.flatMap l.documents) ∧
      ∃ written rest, written ++ rest = documentsOf s.store.names ∧ l.Stops s t written rest outcome t' ∧
        (∀ d ∈ written, (∀ a ∈ s.store.names, l.stem t .module a = l.stem t .module d.1 → a = d.1) →
          ∃ rendered, s.render d.1 = .ok rendered ∧ t'.readText (l.file d) = .ok (rendered.text d.2)) ∧
        ∀ d ∈ written, ∃ last rendered, l.lastAt t written (l.file d) = some last ∧
          l.stem t .module last.1 = l.stem t .module d.1 ∧ last.2 = d.2 ∧
          s.render last.1 = .ok rendered ∧ t'.readText (l.file d) = .ok (rendered.text last.2) := by
  obtain ⟨outcome, t', hrun, -, written, rest, hds, hends⟩ := writeEach_ends l s (documentsOf s.store.names) t
  have hreads : l.Reads s t written t' := reads_of_stops (by rwa [hds]) hends.toStops
  rw [← writeAll_eq_writeEach] at hrun
  refine ⟨nodup_names h, l.apart_iff_stem_ne t, fun a b ha hb => stem_inj ha hb, outcome, t', hrun, ?_, written,
    rest, hds, hends.toStops, fun d hd hown => ?_, fun d hd => hreads.readText hd⟩
  · rintro paths rfl
    exact l.writeAll_gives s t paths t' hrun
  · obtain ⟨last, rendered, hlast, hstem, hformat, hrender, hread⟩ := hreads.readText hd
    have hmem : last ∈ documentsOf s.store.names := hds ▸ List.mem_append_left _ (mem_of_lastAt hlast).1
    obtain rfl : last = d := Prod.ext (hown _ (mem_names_of_mem_documentsOf hmem) hstem) hformat
    exact ⟨rendered, hrender, hread⟩

/-- Two modules whose names differ in an empty segment only. -/
def doubledDot : Manifest :=
  { Manifest.empty with modules := [⟨⟨"A.B"⟩, [], [⟨"first", ⟨1, 0⟩⟩]⟩, ⟨⟨"A..B"⟩, [], [⟨"second", ⟨1, 0⟩⟩]⟩] }

/-- The two modules have one stem, and a name with a slash in it has another one. -/
theorem documents_kept_unless_stem_eq_doubledDot :
    ∃ s, ofManifest doubledDot = .ok s ∧ s.store.names.Nodup ∧
      ¬ (∀ p ∈ Layout.documents ⟨.ofString "out"⟩ ⟨"A.B"⟩, ∀ q ∈ Layout.documents ⟨.ofString "out"⟩ ⟨"A..B"⟩,
        p.steps ≠ q.steps ∧ FileTree.empty.spot p ≠ FileTree.empty.spot q) ∧
      ∀ p ∈ Layout.documents ⟨.ofString "out"⟩ ⟨"A.B"⟩, ∀ q ∈ Layout.documents ⟨.ofString "out"⟩ ⟨"A/C"⟩,
        p.steps ≠ q.steps ∧ FileTree.empty.spot p ≠ FileTree.empty.spot q := by
  obtain ⟨s, hs⟩ : ∃ s, ofManifest doubledDot = .ok s := ⟨_, rfl⟩
  obtain ⟨hnodup, hapart, hroutes, -⟩ := documents_kept_unless_stem_eq doubledDot s hs ⟨.ofString "out"⟩ .empty
  have hsame := (hroutes ⟨"A.B"⟩ ⟨"A..B"⟩ (by decide) (by decide)).mpr (by decide)
  have hother := mt (hroutes ⟨"A.B"⟩ ⟨"A/C"⟩ (by decide) (by decide)).mp (by decide)
  exact ⟨s, hs, hnodup, fun h => (hapart _ _).mp h hsame, (hapart _ _).mpr hother⟩

theorem render_of_doc {s : Session} {a : Name} {d : Doc} {frozen : Bool}
    (h : s.store.contents a = .ok ⟨[], [d], frozen⟩) :
    ∃ rendered, s.render a = .ok rendered ∧ rendered.text .latex = d.text ++ "\n" := by
  have hitems : s.items a = .ok [.doc d.text] := by
    rw [items, Store.items, h]
    simp [Contents.items, Contents.positioned, bind, Except.bind, pure, Except.pure]
  rw [render, hitems]
  exact ⟨_, rfl, by simp [RenderedModule.text, RenderedModule.latexText, LatexRenderer.document_cons]⟩

open Layout in
/-- The first document has its directories made, and the others find them there. -/
theorem writeEach_doubledDot {s : Session} {first second : RenderedModule} (hfirst : s.render ⟨"A.B"⟩ = .ok first)
    (hsecond : s.render ⟨"A..B"⟩ = .ok second) :
    ∃ t', (writeEach ⟨.ofString "out"⟩ s (documentsOf [⟨"A.B"⟩, ⟨"A..B"⟩]) : OnTree (List Path)).run.run .empty =
      (.ok ((documentsOf [⟨"A.B"⟩, ⟨"A..B"⟩]).map (file ⟨.ofString "out"⟩)), t') := by
  obtain ⟨t, hwritten, hready⟩ : ∃ t,
      (writeModule ⟨.ofString "out"⟩ s ⟨"A.B"⟩ .latex : OnTree Path).run.run .empty =
        (.ok (file ⟨.ofString "out"⟩ (⟨"A.B"⟩, .latex)), t) ∧
      ∀ d ∈ [(⟨"A.B"⟩, .json), (⟨"A..B"⟩, .latex), (⟨"A..B"⟩, .json)], Ready ⟨.ofString "out"⟩ s t d := by
    refine ⟨_, writeModule_run (⟨"A.B"⟩, .latex) hfirst (by decide) makeDirectories_outModuleA rfl nofun, ?_⟩
    simp only [List.forall_mem_cons]
    exact ⟨⟨⟨_, hfirst⟩, ⟨.ofString "out/module/A", by decide, Or.inr rfl⟩, ⟨_, rfl, nofun⟩⟩,
      ⟨⟨_, hsecond⟩, ⟨.ofString "out/module/A", by decide, Or.inr rfl⟩, ⟨_, rfl, nofun⟩⟩,
      ⟨⟨_, hsecond⟩, ⟨.ofString "out/module/A", by decide, Or.inr rfl⟩, ⟨_, rfl, nofun⟩⟩, nofun⟩
  obtain ⟨t', hrest⟩ := writeEach_of_ready hready
  have hdocuments : documentsOf [⟨"A.B"⟩, ⟨"A..B"⟩] =
      [(⟨"A.B"⟩, .latex), (⟨"A.B"⟩, .json), (⟨"A..B"⟩, .latex), (⟨"A..B"⟩, .json)] := rfl
  refine ⟨t', ?_⟩
  rw [hdocuments, writeEach_cons, run_bind, hwritten]
  dsimp only
  rw [run_bind, hrest]
  rfl

/-- All documents of the two modules are written without an error, and those of the first one are lost. -/
theorem document_lost_doubledDot :
    ∃ s rendered t', ofManifest doubledDot = .ok s ∧ (⟨"A.B"⟩ : Name) ≠ ⟨"A..B"⟩ ∧
      s.render ⟨"A.B"⟩ = .ok rendered ∧ rendered.text .latex = "first\n" ∧
      (Layout.writeAll ⟨.ofString "out"⟩ s : OnTree (List Path)).run.run .empty =
        (.ok (["out/module/A/B.tex", "out/module/A/B.json", "out/module/A/B.tex", "out/module/A/B.json"].map
          .ofString), t') ∧
      t'.readText (Layout.pathFor ⟨.ofString "out"⟩ .module ⟨"A.B"⟩ .latex) = .ok "second\n" := by
  obtain ⟨s, hs, hnames, hfirst, hsecond⟩ : ∃ s, ofManifest doubledDot = .ok s ∧
      s.store.names = [⟨"A.B"⟩, ⟨"A..B"⟩] ∧ s.store.contents ⟨"A.B"⟩ = .ok ⟨[], [⟨"first", ⟨1, 0⟩⟩], true⟩ ∧
      s.store.contents ⟨"A..B"⟩ = .ok ⟨[], [⟨"second", ⟨1, 0⟩⟩], true⟩ := ⟨_, rfl, rfl, rfl, rfl⟩
  obtain ⟨first, hfirst, htext⟩ := render_of_doc hfirst
  obtain ⟨second, hsecond, htext'⟩ := render_of_doc hsecond
  obtain ⟨t', hrun⟩ := writeEach_doubledDot hfirst hsecond
  obtain ⟨last, rendered, hlast, -, -, hrender, hread⟩ :=
    (Layout.reads_of_writeEach hrun).readText (d := (⟨"A.B"⟩, .latex)) (by decide)
  obtain rfl : last = (⟨"A..B"⟩, .latex) := Option.some.inj (hlast.symm.trans (by decide))
  obtain rfl : second = rendered := Except.ok.inj (hsecond.symm.trans hrender)
  rw [htext'] at hread
  refine ⟨s, first, t', hs, by decide, hfirst, htext, ?_, hread⟩
  have hpaths : (documentsOf [⟨"A.B"⟩, ⟨"A..B"⟩]).map (Layout.file ⟨.ofString "out"⟩) =
      ["out/module/A/B.tex", "out/module/A/B.json", "out/module/A/B.tex", "out/module/A/B.json"].map .ofString := by
    decide
  rw [Layout.writeAll_eq_writeEach, hnames, hrun, hpaths]

end Session

end Compendium
