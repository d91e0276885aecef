import Compendium.Files.Tree
import Compendium.Proofs.Keyed

/-!
# What is put in a tree of files

What happens to a tree is told by the list of what is put in it (`make`). A place that is not in the
list stays as it is (`at?_make`), and the same list has no effect a second time (`make_make`). As long
as no file takes the place of a directory, nor a directory that of a file (`Fits`), the tree grows: a
path that leads to a place keeps leading there (`Grows.place`).
-/

namespace Compendium

def FileEntry.isDirectory : FileEntry → Bool
  | directory => true
  | file _ => false

theorem FileEntry.isDirectory_iff {e : FileEntry} : e.isDirectory = true ↔ e = .directory := by
  cases e <;> simp [isDirectory]

namespace FileTree

variable {t u v : FileTree} {p : Path} {q : Place} {e : FileEntry} {ws ws' : Keyed Place FileEntry}

/-! ### Growing trees -/

/-- What is there stays, as a directory or as a file. -/
structure Grows (t u : FileTree) : Prop where
  here : u.here = t.here
  kind : ∀ q e, t.at? q = some e → ∃ e', u.at? q = some e' ∧ e'.isDirectory = e.isDirectory

namespace Grows

theorem refl (t : FileTree) : t.Grows t := ⟨rfl, fun _ e h => ⟨e, h, rfl⟩⟩

theorem trans (h : t.Grows u) (h' : u.Grows v) : t.Grows v := by
  refine ⟨h'.here.trans h.here, fun q e he => ?_⟩
  obtain ⟨e₁, he₁, hkind⟩ := h.kind q e he
  obtain ⟨e₂, he₂, hkind'⟩ := h'.kind q e₁ he₁
  exact ⟨e₂, he₂, hkind'.trans hkind⟩

theorem directory (h : t.Grows u) (hq : t.at? q = some .directory) : u.at? q = some .directory := by
  obtain ⟨e, he, hkind⟩ := h.kind q _ hq
  rw [he, FileEntry.isDirectory_iff.mp (hkind.trans rfl)]

theorem walk (h : t.Grows u) {start : Place} {cs : List (List Char)} (hwalk : t.walk start cs = .ok q) :
    u.walk start cs = .ok q := by
  induction cs generalizing start with
  | nil => exact hwalk
  | cons c cs ih =>
    rw [FileTree.walk] at hwalk ⊢
    split at hwalk
    · cases hwalk
    · rename_i hlength
      rw [if_neg hlength]
      by_cases hcs : cs.isEmpty
      · rwa [if_pos hcs] at hwalk ⊢
      · rw [if_neg hcs] at hwalk ⊢
        split at hwalk
        · cases hwalk
        · cases hwalk
        · rename_i hdirectory
          rw [h.directory hdirectory]
          exact ih hwalk

theorem place (h : t.Grows u) (hplace : t.place p = .ok q) : u.place p = .ok q := by
  unfold FileTree.place at hplace ⊢
  split at hplace
  · cases hplace
  · rename_i hempty
    rw [if_neg hempty]
    split at hplace
    · cases hplace
    · rename_i hnul
      rw [if_neg hnul]
      split at hplace
      · cases hplace
      · rename_i hlength
        rw [if_neg hlength, h.here]
        exact h.walk hplace

end Grows

/-! ### Lists of what is put -/

/-- Puts one after the other in its place. -/
def make (t : FileTree) (ws : Keyed Place FileEntry) : FileTree := { t with entries := t.entries.setAll ws }

/-- No directory takes the place of a file or a file that of a directory. -/
def Fits : FileTree → Keyed Place FileEntry → Prop
  | _, [] => True
  | t, (q, e) :: ws =>
    q ≠ [] ∧ (∀ e', t.at? q = some e' → e.isDirectory = e'.isDirectory) ∧ (t.put q e).Fits ws

theorem make_append (t : FileTree) (ws ws' : Keyed Place FileEntry) : t.make (ws ++ ws') = (t.make ws).make ws' := by
  simp only [make, Keyed.setAll, List.foldl_append]

theorem make_make (t : FileTree) (ws : Keyed Place FileEntry) : (t.make ws).make ws = t.make ws := by
  simp only [make, Keyed.setAll_setAll]

/-- A place is as it was, or has what was put there last. -/
theorem at?_make (t : FileTree) (ws : Keyed Place FileEntry) (q : Place) :
    (t.make ws).at? q = t.at? q ∨ ∃ e, (q, e) ∈ ws ∧ (t.make ws).at? q = some e := by
  by_cases hq : q = []
  · subst hq
    exact Or.inl rfl
  · simp only [at?, make, List.isEmpty_iff, hq, if_false, Keyed.find?_setAll]
    cases hlast : Keyed.find? ws.reverse q with
    | none => exact Or.inl rfl
    | some e => exact Or.inr ⟨e, List.mem_reverse.mp (Keyed.mem_of_find? hlast), rfl⟩

namespace Fits

theorem append (h : t.Fits ws) (h' : (t.make ws).Fits ws') : t.Fits (ws ++ ws') := by
  induction ws generalizing t with
  | nil => exact h'
  | cons w ws ih => exact ⟨h.1, h.2.1, ih h.2.2 h'⟩

theorem ne_nil (h : t.Fits ws) {w : Place × FileEntry} (hw : w ∈ ws) : w.1 ≠ [] := by
  induction ws generalizing t with
  | nil => exact absurd hw List.not_mem_nil
  | cons w' ws ih =>
    rcases List.mem_cons.mp hw with rfl | hw
    · exact h.1
    · exact ih h.2.2 hw

theorem put_grows (hq : q ≠ []) (h : ∀ e', t.at? q = some e' → e.isDirectory = e'.isDirectory) :
    t.Grows (t.put q e) := by
  refine ⟨rfl, fun q' e' he' => ?_⟩
  rw [at?_put t hq]
  split
  · rename_i heq
    exact ⟨e, rfl, h e' (heq ▸ he')⟩
  · exact ⟨e', he', rfl⟩

theorem grows (h : t.Fits ws) : t.Grows (t.make ws) := by
  induction ws generalizing t with
  | nil => exact .refl t
  | cons w ws ih =>
    exact (put_grows h.1 h.2.1).trans (ih h.2.2)

theorem kind (h : t.Fits ws) {w : Place × FileEntry} (hw : w ∈ ws) :
    ∃ e, (t.make ws).at? w.1 = some e ∧ e.isDirectory = w.2.isDirectory := by
  induction ws generalizing t with
  | nil => exact absurd hw List.not_mem_nil
  | cons w' ws ih =>
    rcases List.mem_cons.mp hw with rfl | hw
    · exact h.2.2.grows.kind w.1 w.2 (by rw [at?_put t h.1, if_pos rfl])
    · exact ih h.2.2 hw

/-- What has been put fits once more into every tree that comes of it. -/
theorem of_grows (h : t.Fits ws) (hu : (t.make ws).Grows u) : u.Fits ws := by
  induction ws generalizing t u with
  | nil => trivial
  | cons w ws ih =>
    obtain ⟨e, he, hkind⟩ := h.kind (List.mem_cons_self ..)
    obtain ⟨e₁, he₁, hkind₁⟩ := hu.kind w.1 e he
    have hsame : ∀ e', u.at? w.1 = some e' → w.2.isDirectory = e'.isDirectory := by
      intro e' he'
      rw [he₁, Option.some.injEq] at he'
      rw [← he', hkind₁, hkind]
    exact ⟨h.1, hsame, ih h.2.2 (hu.trans (put_grows h.1 hsame))⟩

/-- A directory that was put somewhere was missing there. -/
theorem missing (h : t.Fits ws) (hq : (t.make ws).at? q = some .directory)
    (hchanged : (t.make ws).at? q ≠ t.at? q) : t.at? q = none := by
  cases hbefore : t.at? q with
  | none => rfl
  | some e =>
    obtain ⟨e', he', hkind⟩ := h.grows.kind q e hbefore
    rw [hq, Option.some.injEq] at he'
    subst he'
    rw [hq, hbefore, FileEntry.isDirectory_iff.mp hkind.symm] at hchanged
    exact absurd rfl hchanged

end Fits

/-- Putting what is there already changes nothing. -/
theorem make_eq_self (h : ∀ w ∈ ws, w.1 ≠ [] ∧ t.at? w.1 = some w.2) : t.make ws = t := by
  induction ws with
  | nil => rfl
  | cons w ws ih =>
    obtain ⟨hne, hthere⟩ := h w (List.mem_cons_self ..)
    simp only [at?, List.isEmpty_iff, hne, if_false] at hthere
    have hset : t.entries.set w.1 w.2 = t.entries := Keyed.set_of_find? hthere
    have hws := ih fun w hw => h w (List.mem_cons_of_mem _ hw)
    simp only [make, Keyed.setAll, List.foldl_cons, hset] at hws ⊢
    exact hws

/-! ### Single steps -/

theorem find_eq_ok_iff : t.find p = .ok e ↔ ∃ q, t.place p = .ok q ∧ t.at? q = some e := by
  unfold find
  cases t.place p with
  | error _ => simp [bind, Except.bind]
  | ok q =>
    cases h : t.at? q <;> simp [bind, Except.bind, h, pure, Except.pure, throw, throwThe, MonadExceptOf.throw]

theorem isDirectory_iff : t.isDirectory p = true ↔ t.find p = .ok .directory := by
  unfold isDirectory
  split
  · rename_i h
    simp [h]
  · rename_i h
    exact ⟨fun hf => absurd hf (by simp), fun hf => absurd hf h⟩

theorem Grows.isDirectory (h : t.Grows u) (hp : t.isDirectory p = true) : u.isDirectory p = true := by
  obtain ⟨q, hplace, hq⟩ := find_eq_ok_iff.mp (isDirectory_iff.mp hp)
  exact isDirectory_iff.mpr (find_eq_ok_iff.mpr ⟨q, h.place hplace, h.directory hq⟩)

theorem makeDirectory_eq_ok_iff : t.makeDirectory p = .ok u ↔
    ∃ q, t.place p = .ok q ∧ t.at? q = none ∧ u = t.put q .directory := by
  unfold makeDirectory
  cases t.place p with
  | error _ => simp [bind, Except.bind]
  | ok q =>
    cases h : t.at? q <;>
      simp [bind, Except.bind, h, pure, Except.pure, throw, throwThe, MonadExceptOf.throw, eq_comm]

theorem makeDirectory_of_isDirectory (h : t.isDirectory p = true) : t.makeDirectory p = .error .alreadyThere := by
  obtain ⟨q, hplace, hq⟩ := find_eq_ok_iff.mp (isDirectory_iff.mp h)
  unfold makeDirectory
  simp [bind, Except.bind, hplace, hq, throw, throwThe, MonadExceptOf.throw]

theorem writeText_eq_ok_iff {text : String} : t.writeText p text = .ok u ↔
    ∃ q, t.place p = .ok q ∧ t.at? q ≠ some .directory ∧ u = t.put q (.file text.toUTF8) := by
  unfold writeText
  cases t.place p with
  | error _ => simp [bind, Except.bind]
  | ok q =>
    rcases h : t.at? q with _ | _ | _ <;>
      simp [bind, Except.bind, h, pure, Except.pure, throw, throwThe, MonadExceptOf.throw, eq_comm]

theorem ne_nil_of_at? (h : t.at? q ≠ some .directory) : q ≠ [] := by
  rintro rfl
  exact h rfl

end FileTree
end Compendium
