import Mathlib.Data.List.DropRight
import Mathlib.Data.List.ModifyLast
import Compendium.Files.Tree

/-!
# Where paths lead

Two texts can be the same path: slashes in a row count once, and a slash at the end does not count.
`Path.steps` is a path without such differences. A path that is put behind a directory begins with
the steps of the directory, unless it is absolute (`steps_join`), and an extension changes the last
step only (`components_addExtension`). In a tree of files the steps alone decide on the place
(`place_join`).
-/

namespace Compendium

/-! ### Pieces of a text -/

namespace Text

variable {sep c : Char} {cs xs ys : List Char}

theorem split_ne_nil (sep : Char) (cs : List Char) : split sep cs ≠ [] := by
  cases cs with
  | nil => exact List.cons_ne_nil _ _
  | cons c cs =>
    rw [split]
    split
    · exact List.cons_ne_nil _ _
    · split <;> exact List.cons_ne_nil _ _

theorem split_cons_sep (sep : Char) (cs : List Char) : split sep (sep :: cs) = [] :: split sep cs := by
  rw [split, if_pos rfl]

theorem split_cons_of_ne (hc : c ≠ sep) (cs : List Char) :
    split sep (c :: cs) = (split sep cs).modifyHead (c :: ·) := by
  rw [split, if_neg hc]
  cases h : split sep cs with
  | nil => exact absurd h (split_ne_nil sep cs)
  | cons piece pieces => rfl

theorem split_append_sep (sep : Char) (xs ys : List Char) :
    split sep (xs ++ sep :: ys) = split sep xs ++ split sep ys := by
  induction xs with
  | nil => exact split_cons_sep sep ys
  | cons x xs ih =>
    by_cases hx : x = sep
    · subst hx
      rw [List.cons_append, split_cons_sep, split_cons_sep, ih, List.cons_append]
    · obtain ⟨piece, pieces, hp⟩ := List.exists_cons_of_ne_nil (split_ne_nil sep xs)
      rw [List.cons_append, split_cons_of_ne hx, split_cons_of_ne hx, ih, hp]
      rfl

theorem split_of_not_mem (h : sep ∉ cs) : split sep cs = [cs] := by
  induction cs with
  | nil => rfl
  | cons c cs ih =>
    rw [List.mem_cons, not_or] at h
    rw [split_cons_of_ne (Ne.symm h.1), ih h.2]
    rfl

/-- A piece is a part of the text, without the separator. -/
theorem mem_of_mem_split {piece : List Char} (hp : piece ∈ split sep cs) (hc : c ∈ piece) :
    c ∈ cs ∧ c ≠ sep := by
  induction cs generalizing piece with
  | nil =>
    rw [split, List.mem_singleton] at hp
    exact absurd hc (hp ▸ List.not_mem_nil)
  | cons x xs ih =>
    by_cases hx : x = sep
    · rw [hx, split_cons_sep] at hp
      rcases List.mem_cons.mp hp with rfl | hp
      · exact absurd hc List.not_mem_nil
      · exact (ih hp hc).imp_left (List.mem_cons_of_mem x)
    · obtain ⟨head, pieces, hs⟩ := List.exists_cons_of_ne_nil (split_ne_nil sep xs)
      rw [split_cons_of_ne hx, hs, List.modifyHead_cons] at hp
      rw [hs] at ih
      rcases List.mem_cons.mp hp with rfl | hp
      · rcases List.mem_cons.mp hc with rfl | hc
        · exact ⟨List.mem_cons_self .., hx⟩
        · exact (ih (List.mem_cons_self ..) hc).imp_left (List.mem_cons_of_mem x)
      · exact (ih (List.mem_cons_of_mem _ hp) hc).imp_left (List.mem_cons_of_mem x)

theorem lines_of_split {ended : List (List Char)} {last : List Char} (h : split '\n' cs = ended ++ [last]) :
    lines cs = ended.map dropReturn ++ if last.isEmpty then [] else [last] := by
  unfold lines
  rw [h, List.reverse_append, List.reverse_singleton, List.singleton_append]
  dsimp only
  rw [List.reverse_reverse]

theorem exists_split_eq (sep : Char) (cs : List Char) : ∃ ended last, split sep cs = ended ++ [last] :=
  ⟨_, _, (List.dropLast_append_getLast (split_ne_nil sep cs)).symm⟩

theorem dropEndWhile_eq (p : Char → Bool) (cs : List Char) : dropEndWhile p cs = cs.rdropWhile p := rfl

end Text

namespace Path

variable {p q : Path} {c extension : List Char}

/-! ### Components -/

theorem components_append_slash (xs ys : List Char) :
    components ⟨xs ++ '/' :: ys⟩ = components ⟨xs⟩ ++ components ⟨ys⟩ := by
  simp only [components, Text.split_append_sep, List.filter_append]

theorem components_nil : components ⟨[]⟩ = [] := rfl

theorem components_of_not_mem {cs : List Char} (hne : cs ≠ []) (h : '/' ∉ cs) :
    components ⟨cs⟩ = [cs] := by
  simp [components, Text.split_of_not_mem h, hne]

/-- A component is a part of the path that is not empty and has no slash in it. -/
theorem mem_components (h : c ∈ p.components) : c ≠ [] ∧ ∀ x ∈ c, x ∈ p.chars ∧ x ≠ '/' := by
  obtain ⟨hsplit, hne⟩ := List.mem_filter.mp h
  exact ⟨by simpa using hne, fun x hx => Text.mem_of_mem_split hsplit hx⟩

theorem components_append_slashes (cs : List Char) {ends : List Char} (h : ∀ x ∈ ends, x = '/') :
    components ⟨cs ++ ends⟩ = components ⟨cs⟩ := by
  induction ends using List.reverseRecOn with
  | nil => rw [List.append_nil]
  | append_singleton ends x ih =>
    obtain ⟨hends, hx⟩ := List.forall_mem_append.mp h
    rw [hx x (List.mem_singleton_self x), ← List.append_assoc, components_append_slash, ih hends,
      components_nil, List.append_nil]

/-- Slashes at the end do not count. -/
theorem components_dropEndWhile (cs : List Char) :
    components ⟨Text.dropEndWhile (· = '/') cs⟩ = components ⟨cs⟩ := by
  have hends : ∀ x ∈ cs.rtakeWhile (· = '/'), x = '/' := fun x hx => by
    simpa using List.mem_rtakeWhile_imp hx
  rw [Text.dropEndWhile_eq, ← components_append_slashes _ hends, List.rdropWhile_append_rtakeWhile]

/-! ### Paths behind one another -/

theorem join_of_isAbsolute (h : q.isAbsolute = true) (p : Path) : p.join q = q := by
  rw [join, h, Bool.true_or, if_pos rfl]

theorem join_cases (h : q.isAbsolute = false) (p : Path) :
    (p.chars = [] ∧ p.join q = q) ∨
    (∃ front, p.chars = front ++ ['/'] ∧ p.join q = ⟨front ++ '/' :: q.chars⟩) ∨
    (p.chars ≠ [] ∧ p.join q = ⟨p.chars ++ '/' :: q.chars⟩) := by
  by_cases hp : p.chars = []
  · exact Or.inl ⟨hp, by simp [join, hp]⟩
  · by_cases hl : p.chars.getLast? = some '/'
    · obtain ⟨front, hfront⟩ := List.getLast?_eq_some_iff.mp hl
      exact Or.inr (Or.inl ⟨front, hfront, by simp [join, h, hfront]⟩)
    · exact Or.inr (Or.inr ⟨hp, by simp [join, h, hp, hl]⟩)

theorem components_join (h : q.isAbsolute = false) (p : Path) :
    (p.join q).components = p.components ++ q.components := by
  rcases join_cases h p with ⟨hp, hj⟩ | ⟨front, hp, hj⟩ | ⟨-, hj⟩
  · have hnil : p.components = [] := by rw [components, hp]; rfl
    rw [hj, hnil, List.nil_append]
  · have hfront : p.components = components ⟨front⟩ := by
      have hslash : ∀ x ∈ ['/'], x = '/' := fun x hx => List.mem_singleton.mp hx
      rw [← components_append_slashes front hslash, ← hp]
    rw [hj, components_append_slash, hfront]
  · rw [hj, components_append_slash]

theorem isAbsolute_join (p q : Path) : (p.join q).isAbsolute = (p.isAbsolute || q.isAbsolute) := by
  by_cases h : q.isAbsolute = true
  · rw [join_of_isAbsolute h, h, Bool.or_true]
  · rw [Bool.not_eq_true] at h
    rw [h, Bool.or_false]
    rcases join_cases h p with ⟨hp, hj⟩ | ⟨front, hp, hj⟩ | ⟨hp, hj⟩
    · rw [hj, h, isAbsolute, hp]; rfl
    · rw [hj, isAbsolute, isAbsolute, hp]
      cases front <;> rfl
    · rw [hj, isAbsolute, isAbsolute, List.head?_append_of_ne_nil _ hp]

/-! ### Extensions -/

/-- A text that does not end with a slash, cut behind its last slash. -/
theorem exists_last_component {cs : List Char} (hne : cs ≠ []) (hend : cs.getLast hne ≠ '/') :
    ∃ front last, cs = front ++ last ∧ last ≠ [] ∧ '/' ∉ last ∧
      ∀ zs, components ⟨front ++ zs⟩ = components ⟨front⟩ ++ components ⟨zs⟩ := by
  refine ⟨cs.rdropWhile (· ≠ '/'), cs.rtakeWhile (· ≠ '/'), (List.rdropWhile_append_rtakeWhile).symm,
    ?_, fun hmem => ?_, fun zs => ?_⟩
  · rw [Ne, List.rtakeWhile_eq_nil_iff]
    exact fun h => h hne (by simpa using hend)
  · simpa using List.mem_rtakeWhile_imp hmem
  · have hfront := List.rdropWhile_last_not (· ≠ '/') cs
    generalize cs.rdropWhile (· ≠ '/') = front at hfront
    by_cases hf : front = []
    · rw [hf]; rfl
    · have hslash : front.getLast hf = '/' := by simpa using hfront hf
      rw [← List.dropLast_concat_getLast hf, hslash, List.append_assoc, List.singleton_append,
        components_append_slash, components_append_slash, components_nil, List.append_nil]

/-- An extension is put behind the last component, if there is one. -/
theorem components_addExtension (hne : extension ≠ []) (h : '/' ∉ extension) (p : Path) :
    (p.addExtension extension).components = p.components.modifyLast (· ++ '.' :: extension) := by
  have hcomponents := components_dropEndWhile p.chars
  have hlast := List.rdropWhile_last_not (· = '/') p.chars
  rw [← Text.dropEndWhile_eq] at hlast
  rw [addExtension]
  generalize Text.dropEndWhile (· = '/') p.chars = stem at hcomponents hlast
  by_cases hstem : stem = []
  · have hnil : p.components = [] := by rw [← hcomponents, hstem]; rfl
    simp only [hstem, List.isEmpty_nil, if_true, hnil]
    rfl
  · obtain ⟨front, last, rfl, hl, hslash, hfront⟩ := exists_last_component hstem (by simpa using hlast hstem)
    have hext : '/' ∉ last ++ '.' :: extension := by simp [hslash, h]
    simp only [List.isEmpty_iff, hstem, hne, if_false]
    rw [← hcomponents, List.append_assoc, hfront, hfront, components_of_not_mem hl hslash,
      components_of_not_mem (by simp) hext, List.modifyLast_concat]

theorem isAbsolute_addExtension (p : Path) (extension : List Char) :
    (p.addExtension extension).isAbsolute = p.isAbsolute := by
  obtain ⟨ends, hchars⟩ := List.rdropWhile_prefix (· = '/') p.chars
  rw [← Text.dropEndWhile_eq] at hchars
  rw [addExtension]
  generalize Text.dropEndWhile (· = '/') p.chars = stem at hchars
  by_cases hstem : stem = []
  · simp [hstem]
  · have hhead : p.chars.head? = stem.head? := by rw [← hchars, List.head?_append_of_ne_nil _ hstem]
    simp only [List.isEmpty_iff, hstem, if_false]
    split
    · rw [isAbsolute, isAbsolute, hhead]
    · rw [isAbsolute, isAbsolute, hhead, List.head?_append_of_ne_nil _ hstem]

/-! ### Steps -/

/-- What a component of a path means when the path is followed. -/
inductive Step where
  | root
  /-- The directory where a relative path starts, named as such. -/
  | here
  | up
  | into (name : List Char)
deriving DecidableEq, Repr

def Step.ofComponent (c : List Char) : Step :=
  if c = ['.', '.'] then .up else .into c

/-- The steps of a path. A single dot counts only at the start of a relative path. -/
def steps (p : Path) : List Step :=
  (if p.isAbsolute then [.root] else if p.components.head? = some ['.'] then [.here] else []) ++
    (p.components.filter (· ≠ ['.'])).map .ofComponent

/-- A component that is neither a single dot nor two. -/
def IsPlain (c : List Char) : Prop := c ≠ ['.'] ∧ c ≠ ['.', '.']

/-- A path lies below another one if it goes on from there, and only down. -/
def IsBelow (p q : Path) : Prop :=
  ∃ names : List (List Char), p.steps = q.steps ++ names.map .into

theorem map_ofComponent {cs : List (List Char)} (h : ∀ c ∈ cs, IsPlain c) :
    (cs.filter (· ≠ ['.'])).map Step.ofComponent = cs.map .into := by
  have hfilter : cs.filter (· ≠ ['.']) = cs := List.filter_eq_self.mpr fun c hc => by simp [(h c hc).1]
  rw [hfilter]
  exact List.map_congr_left fun c hc => by rw [Step.ofComponent, if_neg (h c hc).2]

theorem steps_of_isAbsolute (h : p.isAbsolute = true) (hp : ∀ c ∈ p.components, IsPlain c) :
    p.steps = .root :: p.components.map .into := by
  rw [steps, if_pos h, map_ofComponent hp]
  rfl

theorem steps_join (h : q.isAbsolute = false) (hq : ∀ c ∈ q.components, IsPlain c) (p : Path) :
    (p.join q).steps = p.steps ++ q.components.map .into := by
  have hstart : (if (p.join q).components.head? = some ['.'] then [Step.here] else []) =
      if p.components.head? = some ['.'] then [Step.here] else [] := by
    rw [components_join h]
    cases hp : p.components with
    | cons c cs => rfl
    | nil =>
      refine if_neg fun hhead => ?_
      exact (hq _ (List.mem_of_mem_head? hhead)).1 rfl
  rw [steps, steps, isAbsolute_join, h, Bool.or_false, hstart, components_join h, List.filter_append, List.map_append,
    map_ofComponent hq, List.append_assoc]

end Path

/-! ### Places -/

namespace FileTree

variable {t : FileTree} {directory place : Place} {cs : List (List Char)}

theorem walk_eq (h : t.walk directory cs = .ok place) : place = cs.foldl step directory := by
  induction cs generalizing directory with
  | nil => exact (Except.ok.inj h).symm
  | cons c cs ih =>
    rw [walk] at h
    split at h
    · cases h
    · dsimp only at h
      split at h
      · rename_i hcs
        rw [List.isEmpty_iff.mp hcs]
        exact (Except.ok.inj h).symm
      · split at h
        · cases h
        · cases h
        · exact ih h

theorem foldl_step_of_plain (h : ∀ c ∈ cs, Path.IsPlain c) (directory : Place) :
    cs.foldl step directory = directory ++ cs := by
  induction cs generalizing directory with
  | nil => exact (List.append_nil directory).symm
  | cons c cs ih =>
    obtain ⟨hc, hcs⟩ := List.forall_mem_cons.mp h
    rw [List.foldl_cons, ih hcs, step, if_neg hc.1, if_neg hc.2, List.append_assoc, List.singleton_append]

theorem place_eq {p : Path} (h : t.place p = .ok place) :
    place = p.components.foldl step (if p.isAbsolute then [] else t.here) := by
  rw [FileTree.place] at h
  split at h
  · cases h
  split at h
  · cases h
  split at h
  · cases h
  -- a slash at the end adds a single dot, which stays in its directory
  have hdot (d : Place) : (if p.chars.getLast? = some '/' then [['.']] else []).foldl step d = d := by
    split <;> rfl
  rw [walk_eq h, List.foldl_append, hdot]

end FileTree

end Compendium
