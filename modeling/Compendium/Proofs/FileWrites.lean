import Compendium.Proofs.DocumentFiles
import Compendium.Proofs.Outcome
import Compendium.Proofs.TreeChanges
import Mathlib.Logic.Relation

/-!
# What writing a file puts in a tree

Writing a file puts missing directories that it lies in, and then the file (`writeFile_puts`). If
nothing goes wrong, then doing the same again does the same on every tree that has grown since
(`Puts.again`), and nothing at all if the tree is still the one that was left (`Puts.again_self`).
-/

namespace Compendium

variable {t u : FileTree} {p a : Path} {ws ws' : Keyed Place FileEntry}

/-- What is done to write documents, on trees of files. -/
abbrev OnTree (α : Type) := ExceptT ExportError (StateM FileTree) α

/-- What is done with files, on trees of them. -/
abbrev TreeAction := StateM FileTree (Except FileError Unit)

/-- One of the directories that a path lies in, as the path is spelled. -/
def Path.LiesIn (p a : Path) : Prop := Relation.TransGen (fun p a => p.parent? = some a) p a

theorem Path.LiesIn.of_parent {parent : Path} (h : p.parent? = some parent) (ha : a = parent ∨ parent.LiesIn a) :
    p.LiesIn a := by
  rcases ha with rfl | ha
  · exact .single h
  · exact .head h ha

/-! ### Operations on trees -/

theorem changeState_run {ε : Type} (f : FileTree → Except ε FileTree) (t : FileTree) :
    (changeState f).run t = match f t with
      | .ok t' => (.ok (), t')
      | .error e => (.error e, t) := by
  show changeState f t = _
  unfold changeState
  cases f t <;> rfl

theorem run_bind_of {α β : Type} {x : StateM FileTree α} {f : α → StateM FileTree β} {a : α} (h : x.run t = (a, u)) :
    (x >>= f).run t = (f a).run u := by
  rw [StateT.run_bind, h]
  rfl

theorem orWriteError_run {α : Type} {x : StateM FileTree (Except FileError α)} {r : Except FileError α} (p : Path)
    (h : x.run t = (r, u)) : (orWriteError p x : OnTree α).run.run t = (r.mapError (.write p), u) := by
  have hlift : (liftM x : OnTree _).run.run t = (.ok r, u) :=
    congrArg (fun p : Except FileError α × FileTree => (Except.ok p.1, p.2)) h
  rw [orWriteError, run_bind, hlift]
  cases r <;> rfl

/-- Done on `t`, `x` ends with `r` and puts `ws`. If nothing goes wrong, it does so too on every tree
that comes of this one. -/
structure Puts {ε α : Type} (x : StateM FileTree (Except ε α)) (t : FileTree) (r : Except ε α)
    (ws : Keyed Place FileEntry) : Prop where
  run : x.run t = (r, t.make ws)
  fits : t.Fits ws
  again : r.isOk → ∀ u, (t.make ws).Grows u → x.run u = (r, u.make ws)

namespace Puts

variable {ε α β : Type}

theorem again_self {x : StateM FileTree (Except ε α)} {r : Except ε α} (h : Puts x t r ws) (hr : r.isOk) :
    x.run (t.make ws) = (r, t.make ws) := by
  have hagain := h.again hr _ (.refl _)
  rwa [FileTree.make_make] at hagain

variable {x : OnTree α} {f : α → OnTree β}

theorem pure (a : α) : Puts (pure a : OnTree α).run t (.ok a) [] :=
  ⟨rfl, trivial, fun _ _ _ => rfl⟩

theorem bind {a : α} {r : Except ExportError β} (hx : Puts x.run t (.ok a) ws)
    (hf : Puts (f a).run (t.make ws) r ws') : Puts (x >>= f).run t r (ws ++ ws') := by
  refine ⟨?_, hx.fits.append hf.fits, fun hr u hu => ?_⟩
  · rw [run_bind, hx.run, FileTree.make_append]
    exact hf.run
  · rw [FileTree.make_append] at hu ⊢
    have hgrown : (t.make ws).Grows u := hf.fits.grows.trans hu
    rw [run_bind, hx.again rfl u hgrown]
    exact hf.again hr _ (hu.trans (hx.fits.of_grows hgrown).grows)

theorem bind_error {e : ExportError} (hx : Puts x.run t (.error e) ws) : Puts (x >>= f).run t (.error e) ws := by
  refine ⟨?_, hx.fits, nofun⟩
  rw [run_bind, hx.run]

theorem map {r : Except ExportError α} (hx : Puts x.run t r ws) (g : α → β) :
    Puts (x >>= fun a => Pure.pure (g a)).run t (r.map g) ws := by
  cases r with
  | error e => exact hx.bind_error
  | ok a =>
    have hpure := hx.bind (f := fun a => Pure.pure (g a)) (.pure (g a))
    rwa [List.append_nil] at hpure

theorem orWriteError {x : StateM FileTree (Except FileError α)} {r : Except FileError α} (h : Puts x t r ws)
    (p : Path) : Puts (orWriteError p x).run t (r.mapError (.write p)) ws := by
  refine ⟨orWriteError_run p h.run, h.fits, fun hr u hu => orWriteError_run p (h.again ?_ u hu)⟩
  cases r with
  | ok _ => rfl
  | error _ => cases hr

end Puts

/-! ### Directories -/

namespace FileSystem

theorem ensureDirectory_run (p : Path) (t : FileTree) :
    (ensureDirectory p : TreeAction).run t =
      match t.makeDirectory p with
      | .ok t' => (.ok (), t')
      | .error .alreadyThere => (if t.isDirectory p then .ok () else .error .alreadyThere, t)
      | .error e => (.error e, t) := by
  show StateT.run (changeState (fun t => t.makeDirectory p) >>= _) t = _
  rw [StateT.run_bind, changeState_run]
  cases t.makeDirectory p with
  | ok t' => rfl
  | error e => cases e <;> rfl

theorem makeDirectories_run (p : Path) (t : FileTree) :
    (makeDirectories p : TreeAction).run t =
      if p.chars.isEmpty then (.ok (), t)
      else match (ensureDirectory p : TreeAction).run t with
        | (.error .notFound, t') => match p.parent? with
          | some parent => match (makeDirectories parent : TreeAction).run t' with
            | (.ok (), t'') => (ensureDirectory p : TreeAction).run t''
            | (.error e, t'') => (.error e, t'')
          | none => (.error .notFound, t')
        | outcome => outcome := by
  rw [makeDirectories]
  split
  · rfl
  · rcases hfirst : (ensureDirectory p : TreeAction).run t with ⟨e | a, t'⟩
    · rw [run_bind_of hfirst]
      cases e with
      | notFound =>
        dsimp only
        split
        · rename_i parent hparent
          rcases hnext : (makeDirectories parent : TreeAction).run t' with ⟨e | a, t''⟩
          · rw [run_bind_of hnext, hparent]
            dsimp only
            rw [hnext]
            rfl
          · rw [run_bind_of hnext, hparent]
            dsimp only
            rw [hnext]
        · rename_i hparent
          rw [hparent]
          rfl
      | _ => rfl
    · rw [run_bind_of hfirst]
      rfl

/-- Where only the parent was missing, the directory is tried again once the parent is there. -/
theorem makeDirectories_of_notFound {parent : Path} (hp : p.parent? = some parent)
    (hmissing : (ensureDirectory p : TreeAction).run t = (.error .notFound, t))
    (hparent : (makeDirectories parent : TreeAction).run t = (.ok (), u)) :
    (makeDirectories p : TreeAction).run t = (ensureDirectory p : TreeAction).run u := by
  rw [makeDirectories_run, hmissing, hp]
  dsimp only
  rw [hparent]
  split
  · rename_i h
    rw [Path.parent?, List.isEmpty_iff.mp h] at hp
    cases hp
  · rfl

end FileSystem

namespace FileTree

/-- The directory `p` is there. The empty path stands for the one where relative paths start. -/
def HasDirectory (t : FileTree) (p : Path) : Prop := p.chars.isEmpty ∨ t.isDirectory p

/-- All of `ws` are directories, `p` or such that `p` lies in. -/
structure Leads (t : FileTree) (p : Path) (ws : Keyed Place FileEntry) : Prop where
  fits : t.Fits ws
  directories : ∀ w ∈ ws, w.2 = .directory ∧ ∃ a, (a = p ∨ p.LiesIn a) ∧ (t.make ws).place a = .ok w.1

namespace Leads

theorem nil (t : FileTree) (p : Path) : t.Leads p [] := ⟨trivial, fun _ hw => absurd hw List.not_mem_nil⟩

theorem append (h : t.Leads p ws) (h' : (t.make ws).Leads p ws') : t.Leads p (ws ++ ws') := by
  refine ⟨h.fits.append h'.fits, fun w hw => ?_⟩
  rw [make_append]
  rcases List.mem_append.mp hw with hw | hw
  · obtain ⟨hdirectory, a, ha, hplace⟩ := h.directories w hw
    exact ⟨hdirectory, a, ha, h'.fits.grows.place hplace⟩
  · exact h'.directories w hw

theorem of_parent (h : t.Leads a ws) (hp : p.parent? = some a) : t.Leads p ws := by
  refine ⟨h.fits, fun w hw => ?_⟩
  obtain ⟨hdirectory, b, hb, hplace⟩ := h.directories w hw
  exact ⟨hdirectory, b, Or.inr (.of_parent hp hb), hplace⟩

end Leads

end FileTree

namespace FileSystem

theorem ensureDirectory_of_isDirectory (h : t.isDirectory p = true) :
    (ensureDirectory p : TreeAction).run t = (.ok (), t) := by
  rw [ensureDirectory_run, FileTree.makeDirectory_of_isDirectory h]
  simp only [h, if_true]

theorem makeDirectories_of_hasDirectory (h : t.HasDirectory p) :
    (makeDirectories p : TreeAction).run t = (.ok (), t) := by
  rw [makeDirectories_run]
  split
  · rfl
  · rename_i hp
    rw [ensureDirectory_of_isDirectory (h.resolve_left hp)]

theorem ensureDirectory_leads (p : Path) (t : FileTree) :
    ∃ r ws, (ensureDirectory p : TreeAction).run t = (r, t.make ws) ∧
      t.Leads p ws ∧ (r.isOk → (t.make ws).isDirectory p) := by
  rw [ensureDirectory_run]
  cases h : t.makeDirectory p with
  | ok t' =>
    obtain ⟨q, hplace, hq, rfl⟩ := FileTree.makeDirectory_eq_ok_iff.mp h
    have hne : q ≠ [] := FileTree.ne_nil_of_at? (by rw [hq]; exact nofun)
    have hfits : t.Fits [(q, .directory)] := ⟨hne, by rw [hq]; exact nofun, trivial⟩
    have hplace' := hfits.grows.place hplace
    refine ⟨.ok (), [(q, .directory)], rfl, ⟨hfits, fun w hw => ?_⟩, fun _ => ?_⟩
    · obtain rfl := List.mem_singleton.mp hw
      exact ⟨rfl, p, Or.inl rfl, hplace'⟩
    · refine FileTree.isDirectory_iff.mpr (FileTree.find_eq_ok_iff.mpr ⟨q, hplace', ?_⟩)
      exact (FileTree.at?_put t hne _ q).trans (if_pos rfl)
  | error e =>
    -- only one of the errors can mean that there is nothing left to do
    have hnone (e : FileError) : ∃ r ws, ((.error e, t) : Except FileError Unit × FileTree) = (r, t.make ws) ∧
        t.Leads p ws ∧ (r.isOk → (t.make ws).isDirectory p) :=
      ⟨.error e, [], rfl, .nil t p, nofun⟩
    cases e with
    | alreadyThere =>
      dsimp only
      split
      · rename_i hp
        exact ⟨.ok (), [], rfl, .nil t p, fun _ => hp⟩
      · exact hnone _
    | _ => exact hnone _

theorem makeDirectories_leads (p : Path) (t : FileTree) :
    ∃ r ws, (makeDirectories p : TreeAction).run t = (r, t.make ws) ∧
      t.Leads p ws ∧ (r.isOk → (t.make ws).HasDirectory p) := by
  -- the directory that a path lies in has a shorter path
  induction hn : p.chars.length using Nat.strong_induction_on generalizing p t with
  | _ n ih =>
    rw [makeDirectories_run]
    split
    · rename_i hp
      exact ⟨.ok (), [], rfl, .nil t p, fun _ => Or.inl hp⟩
    · obtain ⟨r, ws, hrun, hleads, hr⟩ := ensureDirectory_leads p t
      rw [hrun]
      split
      · rename_i t' heq
        obtain rfl := (Prod.mk.inj heq).2
        split
        · rename_i parent hparent
          obtain ⟨r₁, ws₁, hrun₁, hleads₁, -⟩ :=
            ih _ (hn ▸ Path.length_parent?_lt hparent) parent (t.make ws) rfl
          have hleads₁ := hleads.append (hleads₁.of_parent hparent)
          rw [hrun₁, ← FileTree.make_append]
          cases r₁ with
          | error e => exact ⟨.error e, _, rfl, hleads₁, nofun⟩
          | ok _ =>
            obtain ⟨r₂, ws₂, hrun₂, hleads₂, hr₂⟩ := ensureDirectory_leads p (t.make (ws ++ ws₁))
            rw [← FileTree.make_append] at hrun₂ hr₂
            exact ⟨r₂, _, hrun₂, hleads₁.append hleads₂, fun h => Or.inr (hr₂ h)⟩
        · exact ⟨.error .notFound, ws, rfl, hleads, nofun⟩
      · exact ⟨r, ws, rfl, hleads, fun h => Or.inr (hr h)⟩

theorem makeDirectories_puts (p : Path) (t : FileTree) :
    ∃ r ws, Puts (makeDirectories p : TreeAction) t r ws ∧ t.Leads p ws := by
  obtain ⟨r, ws, hrun, hleads, hr⟩ := makeDirectories_leads p t
  refine ⟨r, ws, ⟨hrun, hleads.fits, fun hok u hu => ?_⟩, hleads⟩
  -- on a tree that comes of this one, all these directories are there
  have hthere : u.make ws = u := by
    refine FileTree.make_eq_self fun w hw => ⟨hleads.fits.ne_nil hw, ?_⟩
    obtain ⟨e, he, hkind⟩ := hleads.fits.kind hw
    obtain ⟨hw, -⟩ := hleads.directories w hw
    rw [hw] at hkind ⊢
    exact hu.directory (FileEntry.isDirectory_iff.mp hkind ▸ he)
  rw [hthere]
  have hreached := (hr hok).imp_right hu.isDirectory
  obtain ⟨⟩ | ⟨⟨⟩⟩ := r
  · cases hok
  · exact makeDirectories_of_hasDirectory hreached

end FileSystem

/-! ### Files -/

namespace FileTree

variable {w : Place × FileEntry} {text : String}

/-- `w` is a directory that `p` lies in. -/
def IsAbove (t : FileTree) (p : Path) (w : Place × FileEntry) : Prop :=
  w.2 = .directory ∧ ∃ a, p.LiesIn a ∧ t.place a = .ok w.1

/-- `w` is the file `p` with a text in it. -/
def IsFile (t : FileTree) (p : Path) (text : String) (w : Place × FileEntry) : Prop :=
  w.2 = .file text.toUTF8 ∧ t.place p = .ok w.1

theorem Grows.isAbove (h : t.Grows u) (hw : t.IsAbove p w) : u.IsAbove p w := by
  obtain ⟨hdirectory, a, ha, hplace⟩ := hw
  exact ⟨hdirectory, a, ha, h.place hplace⟩

theorem Grows.isFile (h : t.Grows u) (hw : t.IsFile p text w) : u.IsFile p text w := ⟨hw.1, h.place hw.2⟩

theorem Leads.isAbove {parent : Path} (h : t.Leads parent ws) (hp : p.parent? = some parent) (hw : w ∈ ws) :
    (t.make ws).IsAbove p w := by
  obtain ⟨hdirectory, a, ha, hplace⟩ := h.directories w hw
  exact ⟨hdirectory, a, .of_parent hp ha, hplace⟩

end FileTree

theorem FileSystem.writeText_puts (p : Path) (text : String) (t : FileTree) :
    ∃ r ws, Puts (writeText p text : TreeAction) t r ws ∧
      (∀ w ∈ ws, r.isOk ∧ (t.make ws).IsFile p text w) ∧
      (r.isOk → (t.make ws).find p = .ok (.file text.toUTF8)) := by
  have hrun (t : FileTree) := changeState_run (fun t => t.writeText p text) t
  cases h : t.writeText p text with
  | error e =>
    refine ⟨.error e, [], ⟨?_, trivial, nofun⟩, fun w hw => absurd hw List.not_mem_nil, nofun⟩
    exact (hrun t).trans (by rw [h]; rfl)
  | ok t' =>
    obtain ⟨q, hplace, hq, rfl⟩ := FileTree.writeText_eq_ok_iff.mp h
    have hfits : t.Fits [(q, .file text.toUTF8)] := by
      refine ⟨FileTree.ne_nil_of_at? hq, fun e he => ?_, trivial⟩
      cases e with
      | directory => exact absurd he hq
      | file _ => rfl
    have hplace' := hfits.grows.place hplace
    have hthere : (t.put q (.file text.toUTF8)).at? q = some (.file text.toUTF8) := by
      rw [FileTree.at?_put t (FileTree.ne_nil_of_at? hq), if_pos rfl]
    refine ⟨.ok (), [(q, .file text.toUTF8)], ⟨?_, hfits, fun _ u hu => ?_⟩, fun w hw => ?_, fun _ => ?_⟩
    · exact (hrun t).trans (by rw [h]; rfl)
    · have hfile : u.at? q ≠ some .directory := by
        obtain ⟨e, he, hkind⟩ := hu.kind q _ hthere
        rw [he]
        rintro ⟨⟩
        cases hkind
      have hagain : u.writeText p text = .ok (u.put q (.file text.toUTF8)) :=
        FileTree.writeText_eq_ok_iff.mpr ⟨q, hu.place hplace', hfile, rfl⟩
      exact (hrun u).trans (by rw [hagain]; rfl)
    · obtain rfl := List.mem_singleton.mp hw
      exact ⟨rfl, rfl, hplace'⟩
    · exact FileTree.find_eq_ok_iff.mpr ⟨q, hplace', hthere⟩

open FileSystem in
theorem writeFile_run (ha : p.parent? = some a) (text : String) (t : FileTree) :
    (writeFile p text : OnTree Path).run.run t =
      match (makeDirectories a : TreeAction).run t with
      | (.error e, u) => (.error (.write a e), u)
      | (.ok (), u) => match (writeText p text : TreeAction).run u with
        | (.error e, u') => (.error (.write p e), u')
        | (.ok (), u') => (.ok p, u') := by
  rw [writeFile, ha]
  dsimp only
  rcases hparent : (makeDirectories a : TreeAction).run t with ⟨_ | _, u⟩
  · rw [run_bind, orWriteError_run a hparent]
    rfl
  · rw [run_bind, orWriteError_run a hparent]
    dsimp only [Except.mapError]
    rcases hlast : (writeText p text : TreeAction).run u with ⟨_ | _, u'⟩
    · rw [run_bind, orWriteError_run p hlast]
      rfl
    · rw [run_bind, orWriteError_run p hlast]
      rfl

/-- Writing a file puts nothing but directories that it lies in and the file itself, which then has
the text. -/
theorem writeFile_puts (p : Path) (text : String) (t : FileTree) :
    ∃ r ws, Puts (writeFile p text).run t r ws ∧
      (∀ w ∈ ws, (t.make ws).IsAbove p w ∨ r.isOk ∧ (t.make ws).IsFile p text w) ∧
      (r.isOk → r = .ok p ∧ (t.make ws).find p = .ok (.file text.toUTF8)) := by
  have hlast (t : FileTree) : ∃ r ws,
      Puts (orWriteError p (FileSystem.writeText p text) >>= fun _ => pure p).run t r ws ∧
        (∀ w ∈ ws, r.isOk ∧ (t.make ws).IsFile p text w) ∧
        (r.isOk → r = .ok p ∧ (t.make ws).find p = .ok (.file text.toUTF8)) := by
    obtain ⟨r, ws, hputs, hws, hfind⟩ := FileSystem.writeText_puts p text t
    cases r with
    | error e =>
      exact ⟨_, ws, (hputs.orWriteError p).bind_error, fun w hw => absurd (hws w hw).1 nofun, nofun⟩
    | ok _ =>
      exact ⟨.ok p, ws, (hputs.orWriteError p).map fun _ => p, fun w hw => ⟨rfl, (hws w hw).2⟩,
        fun _ => ⟨rfl, hfind rfl⟩⟩
  unfold writeFile
  cases hp : p.parent? with
  | none =>
    obtain ⟨r, ws, hputs, hws, hfind⟩ := hlast t
    exact ⟨r, ws, hputs, fun w hw => Or.inr (hws w hw), hfind⟩
  | some parent =>
    obtain ⟨r, ws, hputs, hleads⟩ := FileSystem.makeDirectories_puts parent t
    cases r with
    | error e =>
      exact ⟨_, ws, (hputs.orWriteError parent).bind_error, fun w hw => Or.inl (hleads.isAbove hp hw), nofun⟩
    | ok _ =>
      obtain ⟨r', ws', hputs', hws', hfind⟩ := hlast (t.make ws)
      rw [← FileTree.make_append] at hws' hfind
      refine ⟨r', ws ++ ws', (hputs.orWriteError parent).bind hputs', fun w hw => ?_, hfind⟩
      rcases List.mem_append.mp hw with hw | hw
      · rw [FileTree.make_append]
        exact Or.inl (hputs'.fits.grows.isAbove (hleads.isAbove hp hw))
      · exact Or.inr (hws' w hw)

theorem FileTree.readText_of_find {text : String} (h : t.find p = .ok (.file text.toUTF8)) :
    t.readText p = .ok text := by
  have htext : String.fromUTF8? text.toUTF8 = some text := dif_pos text.isValidUTF8
  rw [readText, h, ok_bind]
  dsimp only
  rw [htext]
  rfl

/-- A document that was written can be read where it was put. -/
theorem Layout.readText_of_write {l : Layout} {kind : Kind} {n : Name} {text : String} {format : Format}
    (h : (l.write kind n text format : OnTree Path).run.run t = (.ok p, u)) :
    p = l.pathFor kind n format ∧ u.readText p = .ok text := by
  obtain ⟨r, ws, hputs, -, hr⟩ := writeFile_puts (l.pathFor kind n format) text t
  obtain ⟨rfl, rfl⟩ := Prod.mk.inj (hputs.run.symm.trans h)
  obtain ⟨hp, hfind⟩ := hr rfl
  obtain rfl := Except.ok.inj hp
  exact ⟨rfl, FileTree.readText_of_find hfind⟩

end Compendium
