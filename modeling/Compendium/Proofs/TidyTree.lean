import Compendium.Proofs.Parents

/-!
# Trees in which files can be told from directories

Below an output directory that was empty at first, whatever is written there is a file exactly if its name has a dot
in it (`Layout.Tidy`): the segments of names have none, and every document has an extension. As long as this is so, a
directory on the way to a document is never taken for a file. Then only a path that no file can have keeps its
directories from being made, and making them leaves the tree in this state (`Layout.Tidy.makeDirectories_safe`).
-/

namespace Compendium

/-- The path itself is to blame, whatever there is in the tree. -/
def FileError.BlamesPath (e : FileError) : Prop := e = .nulInPath ∨ e = .nameTooLong

theorem FileError.BlamesPath.ne {e : FileError} (h : e.BlamesPath) : e ≠ .notFound ∧ e ≠ .alreadyThere := by
  rcases h with rfl | rfl <;> exact ⟨nofun, nofun⟩

/-- Names that cannot be mistaken for one that has an extension. -/
def Undotted (cs : List (List Char)) : Prop := ∀ c ∈ cs, '.' ∉ c

/-! ### Following a path -/

namespace FileTree

variable {t : FileTree} {p : Path} {d q : Place} {xs ys dots : List (List Char)}

def start (t : FileTree) (p : Path) : Place := if p.isAbsolute then [] else t.here

/-- The place that a path names, whether or not it leads there. -/
def spot (t : FileTree) (p : Path) : Place := p.components.foldl step (t.start p)

/-- What a slash at the end of a path asks for. -/
def trailing (p : Path) : List (List Char) := if p.chars.getLast? = some '/' then [['.']] else []

theorem place_cases (hp : p.chars ≠ []) (t : FileTree) :
    (∃ e, t.place p = .error e ∧ e.BlamesPath) ∨ t.place p = t.walk (t.start p) (p.components ++ trailing p) := by
  rw [place, if_neg (by simpa using hp)]
  by_cases hnul : p.chars.contains '\x00' = true
  · rw [if_pos hnul]
    exact Or.inl ⟨_, rfl, Or.inl rfl⟩
  · rw [if_neg hnul]
    by_cases hlength : maxPath < Text.byteLength p.chars
    · rw [if_pos hlength]
      exact Or.inl ⟨_, rfl, Or.inr rfl⟩
    · rw [if_neg hlength]
      exact Or.inr rfl

theorem walk_cons (t : FileTree) (d : Place) (x : List Char) (hxs : xs ≠ []) :
    t.walk d (x :: xs) = if maxComponent < Text.byteLength x then .error .nameTooLong
      else match t.at? (step d x) with
        | none => .error .notFound
        | some (.file _) => .error .notDirectory
        | some .directory => t.walk (step d x) xs := by
  rw [walk]
  split
  · rfl
  · refine (if_neg (by simpa using hxs)).trans ?_
    rcases t.at? (step d x) with _ | _ | _ <;> rfl

theorem walk_singleton (t : FileTree) (d : Place) (x : List Char) :
    t.walk d [x] = if maxComponent < Text.byteLength x then .error .nameTooLong else .ok (step d x) := by
  rw [walk]
  rfl

/-- A way that can be followed can be followed in part. -/
theorem walk_front (h : t.walk d (xs ++ ys) = .ok q) : t.walk d xs = .ok (xs.foldl step d) := by
  induction xs generalizing d with
  | nil => rfl
  | cons x xs ih =>
    by_cases hxs : xs = []
    · subst hxs
      rw [walk_singleton, if_neg ?_]
      · rfl
      · intro hlength
        rw [List.cons_append, walk, if_pos hlength] at h
        cases h
    · rw [List.cons_append, walk_cons t d x (List.append_ne_nil_of_left_ne_nil hxs ys)] at h
      rw [walk_cons t d x hxs]
      split at h
      · cases h
      · rename_i hlength
        rw [if_neg hlength]
        split at h
        · cases h
        · cases h
        · exact ih h

/-- From a directory, the way goes on as if it began there. -/
theorem walk_behind (h : t.walk d xs = .ok q) (hq : t.at? q = some .directory) (hys : ys ≠ []) :
    t.walk d (xs ++ ys) = t.walk q ys := by
  induction xs generalizing d with
  | nil =>
    obtain rfl := Except.ok.inj h
    rfl
  | cons x xs ih =>
    rw [List.cons_append, walk_cons t d x (List.append_ne_nil_of_right_ne_nil xs hys)]
    by_cases hxs : xs = []
    · subst hxs
      rw [walk_singleton] at h
      split at h
      · cases h
      · rename_i hlength
        obtain rfl := Except.ok.inj h
        rw [if_neg hlength, hq]
        rfl
    · rw [walk_cons t d x hxs] at h
      split at h
      · cases h
      · rename_i hlength
        rw [if_neg hlength]
        split at h
        · cases h
        · cases h
        · exact ih h

theorem walk_dots (hd : t.at? d = some .directory) (hdots : ∀ c ∈ dots, c = ['.']) : t.walk d dots = .ok d := by
  induction dots with
  | nil => rfl
  | cons c dots ih =>
    obtain ⟨rfl, hrest⟩ := List.forall_mem_cons.mp hdots
    have hlength : ¬ maxComponent < Text.byteLength ['.'] := by decide
    have hstep : step d ['.'] = d := rfl
    by_cases hnil : dots = []
    · rw [hnil, walk_singleton, if_neg hlength, hstep]
    · rw [walk_cons t d _ hnil, if_neg hlength, hstep, hd]
      exact ih hrest

theorem foldl_step_dots (hdots : ∀ c ∈ dots, c = ['.']) (d : Place) : dots.foldl step d = d := by
  induction dots with
  | nil => rfl
  | cons c dots ih =>
    obtain ⟨rfl, hrest⟩ := List.forall_mem_cons.mp hdots
    exact ih hrest

theorem walk_of_isDirectory (h : t.isDirectory p = true) :
    t.walk (t.start p) p.components = .ok (t.spot p) ∧ t.at? (t.spot p) = some .directory := by
  obtain ⟨q, hplace, hq⟩ := find_eq_ok_iff.mp (isDirectory_iff.mp h)
  obtain rfl : q = t.spot p := place_eq hplace
  refine ⟨?_, hq⟩
  have hp : p.chars ≠ [] := by
    intro hp
    rw [place, if_pos (by simpa using hp)] at hplace
    cases hplace
  rcases place_cases hp t with ⟨e, he, -⟩ | hwalk
  · rw [he] at hplace
    cases hplace
  · rw [hwalk] at hplace
    exact walk_front hplace

end FileTree

/-! ### Below the output directory -/

namespace Layout

variable {l : Layout} {t u : FileTree} {p a : Path} {dirs : List (List Char)} {c : List Char}

def home (l : Layout) (t : FileTree) : Place := t.spot l.base

/-- The output directory is there, and what has a dot in its name below it is a file and not a directory. -/
structure Tidy (l : Layout) (t : FileTree) : Prop where
  leads : t.walk (t.start l.base) l.base.components = .ok (l.home t)
  there : t.at? (l.home t) = some .directory
  dotted : ∀ r c e, t.at? (l.home t ++ (r ++ [c])) = some e → (e = .directory ↔ '.' ∉ c)

/-- The output directory is there, and nothing is in it. -/
structure IsFresh (l : Layout) (t : FileTree) : Prop where
  directory : t.HasDirectory l.base
  there : t.at? (l.home t) = some .directory
  empty : ∀ r ≠ [], t.at? (l.home t ++ r) = none

theorem IsFresh.tidy (h : l.IsFresh t) : l.Tidy t := by
  refine ⟨?_, h.there, fun r c e he => ?_⟩
  · rcases h.directory with hbase | hbase
    · have hnone : l.base.components = [] := by rw [Path.components, List.isEmpty_iff.mp hbase]; rfl
      rw [home, FileTree.spot, hnone]
      rfl
    · exact (FileTree.walk_of_isDirectory hbase).1
  · rw [h.empty _ (by simp)] at he
    cases he

theorem Tidy.put {e : FileEntry} (h : l.Tidy t) (r : Place) (hc : e = .directory ↔ '.' ∉ c) :
    l.Tidy (t.put (l.home t ++ (r ++ [c])) e) := by
  have hne : l.home t ++ (r ++ [c]) ≠ [] := by simp
  have hgrows : t.Grows (t.put (l.home t ++ (r ++ [c])) e) := by
    refine FileTree.Fits.put_grows hne fun e' he' => ?_
    rw [Bool.eq_iff_iff, FileEntry.isDirectory_iff, FileEntry.isDirectory_iff, hc, h.dotted r c e' he']
  refine ⟨hgrows.walk h.leads, hgrows.directory h.there, fun r' c' e' he' => ?_⟩
  change (t.put _ e).at? (l.home t ++ (r' ++ [c'])) = some e' at he'
  rw [FileTree.at?_put t hne] at he'
  split at he'
  · rename_i hsame
    obtain ⟨-, hlast⟩ := List.append_inj' (List.append_cancel_left hsame) rfl
    obtain rfl := List.singleton_injective hlast
    exact Option.some.inj he' ▸ hc
  · exact h.dotted r' c' e' he'

/-- The path goes to the output directory and from there through `dirs`. Single dots at the end may be missing. -/
structure WayTo (l : Layout) (dirs : List (List Char)) (p : Path) : Prop where
  isAbsolute_eq : p.isAbsolute = l.base.isAbsolute
  components_eq : ∃ dots, (∀ d ∈ dots, d = ['.']) ∧ l.base.components ++ dirs = p.components ++ dots
  getLast? : p.chars.getLast? = some '/' → p.components = []

/-- There are no dots behind the last component that leads somewhere. -/
theorem dots_eq_nil {xs ys dots : List (List Char)} (h : xs ++ [c] = ys ++ dots) (hdots : ∀ d ∈ dots, d = ['.'])
    (hc : c ≠ ['.']) : dots = [] := by
  rcases List.eq_nil_or_concat' dots with rfl | ⟨front, d, rfl⟩
  · rfl
  · rw [← List.append_assoc] at h
    obtain ⟨-, hlast⟩ := List.append_inj' h rfl
    exact absurd ((List.singleton_injective hlast).trans (hdots d (by simp))) hc

namespace WayTo

theorem start_eq (h : l.WayTo dirs p) (t : FileTree) : t.start p = t.start l.base := by
  rw [FileTree.start, FileTree.start, h.isAbsolute_eq]

theorem components_inside (h : l.WayTo (dirs ++ [c]) p) (hc : c ≠ ['.']) :
    p.components = l.base.components ++ (dirs ++ [c]) := by
  obtain ⟨dots, hdots, heq⟩ := h.components_eq
  rw [← List.append_assoc] at heq
  have hnil := dots_eq_nil heq hdots hc
  rw [← List.append_assoc, heq, hnil, List.append_nil]

theorem chars_ne_nil (h : l.WayTo (dirs ++ [c]) p) (hc : c ≠ ['.']) : p.chars ≠ [] := by
  intro hp
  have hcomponents := h.components_inside hc
  rw [Path.components, hp] at hcomponents
  have hmem : c ∈ l.base.components ++ (dirs ++ [c]) := by simp
  rw [← hcomponents] at hmem
  exact List.not_mem_nil hmem

/-- The parent goes through one directory less. -/
theorem parent (h : l.WayTo (dirs ++ [c]) p) (hc : c ≠ ['.']) : ∃ a, p.parent? = some a ∧ l.WayTo dirs a := by
  have hcomponents := h.components_inside hc
  cases ha : p.parent? with
  | none => exact absurd (Path.parent?_eq_none ha c (by rw [hcomponents]; simp)) hc
  | some a =>
    obtain ⟨habs, ⟨dots, x, dots', heq, hall⟩, hend⟩ := Path.parent?_spec ha
    obtain ⟨hdots, hdots'⟩ := List.forall_mem_append.mp hall
    have hsplit : l.base.components ++ dirs ++ [c] = a.components ++ dots ++ [x] ++ dots' := by
      rw [List.append_assoc, ← hcomponents, heq]
      simp
    -- the last component is not a dot, so it is the one that leads somewhere
    rw [dots_eq_nil hsplit hdots' hc, List.append_nil] at hsplit
    obtain ⟨hfront, -⟩ := List.append_inj' hsplit rfl
    exact ⟨a, rfl, habs.trans h.isAbsolute_eq, ⟨dots, hdots, hfront⟩, hend⟩

theorem isDirectory_home (ht : l.Tidy t) (h : l.WayTo [] p) (hp : p.chars ≠ []) :
    (∃ e, t.place p = .error e ∧ e.BlamesPath) ∨ t.isDirectory p = true := by
  refine (FileTree.place_cases hp t).imp_right fun hwalk => ?_
  obtain ⟨dots, hdots, heq⟩ := h.components_eq
  rw [List.append_nil] at heq
  have hleads := ht.leads
  rw [heq] at hleads
  have hspot : p.components.foldl FileTree.step (t.start l.base) = l.home t := by
    rw [home, FileTree.spot, heq, List.foldl_append, FileTree.foldl_step_dots hdots]
  have hfront := FileTree.walk_front hleads
  rw [hspot] at hfront
  have hplace : t.place p = .ok (l.home t) := by
    rw [hwalk, h.start_eq, FileTree.trailing]
    split
    · rw [FileTree.walk_behind hfront ht.there (List.cons_ne_nil _ _)]
      exact FileTree.walk_dots ht.there (fun _ => List.mem_singleton.mp)
    · rwa [List.append_nil]
  exact FileTree.isDirectory_iff.mpr (FileTree.find_eq_ok_iff.mpr ⟨_, hplace, ht.there⟩)

theorem place_inside (ht : l.Tidy t) (h : l.WayTo (dirs ++ [c]) p) (hc : c ≠ ['.']) :
    (∃ e, t.place p = .error e ∧ e.BlamesPath) ∨ t.place p = t.walk (l.home t) (dirs ++ [c]) := by
  refine (FileTree.place_cases (h.chars_ne_nil hc) t).imp_right fun hwalk => ?_
  have hcomponents := h.components_inside hc
  have hend : p.chars.getLast? ≠ some '/' := by
    intro hend
    rw [h.getLast? hend] at hcomponents
    simp at hcomponents
  rw [hwalk, h.start_eq, FileTree.trailing, if_neg hend, List.append_nil, hcomponents,
    FileTree.walk_behind ht.leads ht.there (by simp)]

/-- Where the parent is there, the path leads below it. -/
theorem place_of_hasDirectory (ht : l.Tidy t) (h : l.WayTo (dirs ++ [c]) p) (hdirs : Undotted dirs)
    (hc : Path.IsPlain c) (ha : l.WayTo dirs a) (hthere : t.HasDirectory a) :
    (∃ e, t.place p = .error e ∧ e.BlamesPath) ∨ t.place p = .ok (l.home t ++ (dirs ++ [c])) := by
  have hplain : ∀ d ∈ dirs, Path.IsPlain d := fun d hd => isPlain_of_not_mem (hdirs d hd)
  obtain ⟨hparent, hdirectory⟩ : t.walk (l.home t) dirs = .ok (l.home t ++ dirs) ∧
      t.at? (l.home t ++ dirs) = some .directory := by
    rcases List.eq_nil_or_concat' dirs with rfl | ⟨front, d, rfl⟩
    · rw [List.append_nil]
      exact ⟨rfl, ht.there⟩
    · have hd := (hplain d (by simp)).1
      obtain ⟨q, hplace, hq⟩ := FileTree.find_eq_ok_iff.mp (FileTree.isDirectory_iff.mp
        (hthere.resolve_left (by simpa using ha.chars_ne_nil hd)))
      rcases ha.place_inside ht hd with ⟨e, he, -⟩ | hwalk
      · rw [he] at hplace
        cases hplace
      · rw [hwalk] at hplace
        obtain rfl : q = l.home t ++ (front ++ [d]) :=
          (FileTree.walk_eq hplace).trans (FileTree.foldl_step_of_plain hplain _)
        exact ⟨hplace, hq⟩
  rcases h.place_inside ht hc.1 with herror | hplace
  · exact Or.inl herror
  · rw [hplace, FileTree.walk_behind hparent hdirectory (List.cons_ne_nil _ _), FileTree.walk_singleton]
    split
    · exact Or.inl ⟨_, rfl, Or.inr rfl⟩
    · rw [FileTree.step, if_neg hc.1, if_neg hc.2, List.append_assoc]
      exact Or.inr rfl

end WayTo

/-- On the way below the output directory there is no file, so the way ends only where nothing is yet. -/
theorem Tidy.walk_cases (ht : l.Tidy t) (hdirs : Undotted dirs) (hc : Path.IsPlain c) (r : Place) :
    t.walk (l.home t ++ r) (dirs ++ [c]) = .error .nameTooLong ∨
    t.walk (l.home t ++ r) (dirs ++ [c]) = .error .notFound ∨
    t.walk (l.home t ++ r) (dirs ++ [c]) = .ok (l.home t ++ (r ++ (dirs ++ [c]))) := by
  induction dirs generalizing r with
  | nil =>
    rw [List.nil_append, FileTree.walk_singleton]
    split
    · exact Or.inl rfl
    · rw [FileTree.step, if_neg hc.1, if_neg hc.2, List.append_assoc]
      exact Or.inr (Or.inr rfl)
  | cons x dirs ih =>
    obtain ⟨hx, hdirs⟩ := List.forall_mem_cons.mp hdirs
    have hplain := isPlain_of_not_mem hx
    rw [List.cons_append, FileTree.walk_cons t _ x (by simp), FileTree.step, if_neg hplain.1, if_neg hplain.2,
      List.append_assoc]
    split
    · exact Or.inl rfl
    · split
      · exact Or.inr (Or.inl rfl)
      · rename_i hfile
        cases (ht.dotted r x _ hfile).mpr hx
      · have hrest := ih hdirs (r ++ [x])
        simp only [List.append_assoc, List.singleton_append] at hrest
        exact hrest

/-! ### Making directories -/

/-- Done on `t`, `x` leaves a tidy tree. If it goes wrong, the error is a `bad` one. -/
inductive Safe {ε α : Type} (l : Layout) (x : StateM FileTree (Except ε α)) (t : FileTree) (bad : ε → Prop) :
    Prop where
  | ok {a : α} {u : FileTree} (hrun : x.run t = (.ok a, u)) (hu : l.Tidy u)
  | error {e : ε} {u : FileTree} (hrun : x.run t = (.error e, u)) (hu : l.Tidy u) (he : bad e)

namespace Safe

variable {ε α : Type} {x y : StateM FileTree (Except ε α)} {bad bad' : ε → Prop}

theorem of_run_eq (h : l.Safe x t bad) (hrun : y.run u = x.run t) : l.Safe y u bad := by
  cases h with
  | ok h hu => exact .ok (hrun.trans h) hu
  | error h hu he => exact .error (hrun.trans h) hu he

theorem tidy (h : l.Safe x t bad) : l.Tidy (x.run t).2 := by
  cases h with
  | ok h hu => rwa [h]
  | error h hu _ => rwa [h]

theorem imp (h : l.Safe x t bad) (hbad : ∀ e, bad e → bad' e) : l.Safe x t bad' := by
  cases h with
  | ok h hu => exact .ok h hu
  | error h hu he => exact .error h hu (hbad _ he)

end Safe

open FileSystem in
theorem ensureDirectory_of_place_error {e : FileError} (h : t.place p = .error e) (he : e ≠ .alreadyThere) :
    (ensureDirectory p : TreeAction).run t = (.error e, t) := by
  have hmake : t.makeDirectory p = .error e := by
    rw [FileTree.makeDirectory, h]
    rfl
  rw [ensureDirectory_run, hmake]
  cases e <;> first | rfl | exact absurd rfl he

open FileSystem in
theorem Tidy.ensureDirectory_safe (ht : l.Tidy t) (h : l.WayTo (dirs ++ [c]) p) (hdirs : Undotted (dirs ++ [c])) :
    l.Safe (ensureDirectory p : TreeAction) t
      fun e => e.BlamesPath ∨ e = .notFound ∧ t.place p = .error .notFound := by
  obtain ⟨hfront, hc⟩ := List.forall_mem_append.mp hdirs
  have hc : '.' ∉ c := hc c (List.mem_singleton_self c)
  have hplain := isPlain_of_not_mem hc
  rcases h.place_inside ht hplain.1 with ⟨e, he, hblames⟩ | hwalk
  · exact .error (ensureDirectory_of_place_error he hblames.ne.2) ht (Or.inl hblames)
  have hcases := ht.walk_cases hfront hplain []
  rw [List.append_nil, List.nil_append, ← hwalk] at hcases
  rcases hcases with hlong | hmissing | hplace
  · exact .error (ensureDirectory_of_place_error hlong nofun) ht (Or.inl (Or.inr rfl))
  · exact .error (ensureDirectory_of_place_error hmissing nofun) ht (Or.inr ⟨rfl, hmissing⟩)
  · cases hthere : t.at? (l.home t ++ (dirs ++ [c])) with
    | none =>
      have hrun := ensureDirectory_run p t
      rw [FileTree.makeDirectory_eq_ok_iff.mpr ⟨_, hplace, hthere, rfl⟩] at hrun
      exact .ok hrun (ht.put dirs (iff_of_true rfl hc))
    | some e =>
      obtain rfl := (ht.dotted _ _ _ hthere).mpr hc
      have hdirectory := FileTree.isDirectory_iff.mpr (FileTree.find_eq_ok_iff.mpr ⟨_, hplace, hthere⟩)
      exact .ok (ensureDirectory_of_isDirectory hdirectory) ht

open FileSystem in
theorem hasDirectory_of_makeDirectories (h : (makeDirectories a : TreeAction).run t = (.ok (), u)) :
    u.HasDirectory a := by
  obtain ⟨r, ws, hrun, -, hdirectory⟩ := makeDirectories_leads a t
  obtain ⟨rfl, rfl⟩ := Prod.mk.inj (hrun.symm.trans h)
  exact hdirectory rfl

open FileSystem in
theorem Tidy.ensureDirectory_safe_in (ht : l.Tidy t) (h : l.WayTo (dirs ++ [c]) p) (hdirs : Undotted (dirs ++ [c]))
    (ha : l.WayTo dirs a) (hthere : t.HasDirectory a) :
    l.Safe (ensureDirectory p : TreeAction) t FileError.BlamesPath := by
  refine (ht.ensureDirectory_safe h hdirs).imp fun e he => he.resolve_right ?_
  rintro ⟨-, hmissing⟩
  obtain ⟨hfront, hc⟩ := List.forall_mem_append.mp hdirs
  have hplain := isPlain_of_not_mem (hc c (List.mem_singleton_self c))
  rcases h.place_of_hasDirectory ht hfront hplain ha hthere with ⟨e, he, hblames⟩ | hplace
  · rw [hmissing] at he
    exact hblames.ne.1 (Except.error.inj he).symm
  · rw [hmissing] at hplace
    cases hplace

open FileSystem in
/-- Only the path can be to blame for a directory that cannot be made. -/
theorem Tidy.makeDirectories_safe (ht : l.Tidy t) (hdirs : Undotted dirs) (h : l.WayTo dirs p) :
    l.Safe (makeDirectories p : TreeAction) t FileError.BlamesPath := by
  -- a directory that is missing is made in its parent, which is one step closer to the output directory
  induction dirs using List.reverseRecOn generalizing p t with
  | nil =>
    by_cases hp : p.chars = []
    · exact .ok (makeDirectories_of_hasDirectory (Or.inl (by simpa using hp))) ht
    · rcases h.isDirectory_home ht hp with ⟨e, he, hblames⟩ | hdirectory
      · refine .error ?_ ht hblames
        rw [makeDirectories_run, if_neg (by simpa using hp), ensureDirectory_of_place_error he hblames.ne.2]
        rcases hblames with rfl | rfl <;> rfl
      · exact .ok (makeDirectories_of_hasDirectory (Or.inr hdirectory)) ht
  | append_singleton dirs c ih =>
    obtain ⟨hfront, hc⟩ := List.forall_mem_append.mp hdirs
    have hplain := isPlain_of_not_mem (hc c (List.mem_singleton_self c))
    have hp := h.chars_ne_nil hplain.1
    have hrun := makeDirectories_run p t
    rw [if_neg (by simpa using hp)] at hrun
    cases ht.ensureDirectory_safe h hdirs with
    | ok hfirst ht₁ => exact .ok (by rw [hrun, hfirst]) ht₁
    | error hfirst ht₁ he =>
      rw [hfirst] at hrun
      rcases he with hblames | ⟨rfl, -⟩
      · refine .error ?_ ht₁ hblames
        rw [hrun]
        rcases hblames with rfl | rfl <;> rfl
      · obtain ⟨a, ha, hway⟩ := h.parent hplain.1
        rw [ha] at hrun
        dsimp only at hrun
        cases ih ht₁ hfront hway with
        | error hparent ht₂ he => exact .error (by rw [hrun, hparent]) ht₂ he
        | ok hparent ht₂ =>
          rw [hparent] at hrun
          exact (ht₂.ensureDirectory_safe_in h hdirs hway (hasDirectory_of_makeDirectories hparent)).of_run_eq hrun

end Layout

end Compendium
