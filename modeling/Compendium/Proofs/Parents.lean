import Compendium.Proofs.References

/-!
# What is left of a path in its parent

The parent of a path is cut off the text of the path, so it can be spelled in a way of its own. What counts
is what becomes of the components: the parent has fewer of them, from the start on, and of those that are left
out only one leads anywhere (`Path.parent?_spec`). So all directories that a path lies in are further and
further up on the way that the path goes (`Path.LiesIn.prefix_components`).
-/

namespace Compendium

/-! ### Pieces between slashes -/

namespace Text

variable {cs start : List Char} {pieces : List (List Char)}

theorem split_join (h : ∀ piece ∈ start :: pieces, '/' ∉ piece) :
    split '/' (join ['/'] (start :: pieces)) = start :: pieces := by
  induction pieces generalizing start with
  | nil =>
    have hjoin : join ['/'] [start] = start := by simp [join]
    rw [hjoin, split_of_not_mem (h start (List.mem_singleton_self start))]
  | cons piece pieces ih =>
    obtain ⟨hstart, hpieces⟩ := List.forall_mem_cons.mp h
    rw [join_cons_cons, List.append_assoc, List.singleton_append, split_append_sep, split_of_not_mem hstart,
      ih hpieces, List.singleton_append]

theorem getLast?_split (h : cs.getLast? = some '/') : (split '/' cs).getLast? = some [] := by
  obtain ⟨front, rfl⟩ := List.getLast?_eq_some_iff.mp h
  rw [split_append_sep]
  exact List.getLast?_concat

end Text

namespace Path

variable {p a b : Path} {cs start c : List Char} {pieces : List (List Char)}

theorem isAbsolute_iff_split (h : Text.split '/' cs = start :: pieces) :
    isAbsolute ⟨cs⟩ = true ↔ start = [] ∧ pieces ≠ [] := by
  cases cs with
  | nil =>
    obtain ⟨rfl, rfl⟩ := List.cons.inj h
    exact iff_of_false (by decide) fun hne => hne.2 rfl
  | cons c cs =>
    by_cases hc : c = '/'
    · subst hc
      rw [Text.split_cons_sep] at h
      obtain ⟨rfl, rfl⟩ := List.cons.inj h
      exact iff_of_true rfl ⟨rfl, Text.split_ne_nil '/' cs⟩
    · obtain ⟨piece, pieces', hs⟩ := List.exists_cons_of_ne_nil (Text.split_ne_nil '/' cs)
      rw [Text.split_cons_of_ne hc, hs, List.modifyHead_cons] at h
      obtain ⟨rfl, -⟩ := List.cons.inj h
      exact iff_of_false (by simpa [isAbsolute] using hc) fun hstart => List.cons_ne_nil _ _ hstart.1

/-! ### Pieces that lead nowhere -/

def named (pieces : List (List Char)) : List (List Char) := pieces.filter (!·.isEmpty)

theorem components_eq_named (h : Text.split '/' cs = pieces) : components ⟨cs⟩ = named pieces := by
  rw [components, h, named]

theorem named_append (xs ys : List (List Char)) : named (xs ++ ys) = named xs ++ named ys := List.filter_append ..

theorem named_cons (h : c ≠ []) (pieces : List (List Char)) : named (c :: pieces) = c :: named pieces :=
  List.filter_cons_of_pos (by simpa using h)

theorem ne_nil_of_not_isIdle (h : isIdle c = false) : c ≠ [] := by
  rintro rfl
  cases h

/-- Pieces that lead nowhere are single dots, where they are components. -/
theorem named_idle (h : ∀ piece ∈ pieces, isIdle piece = true) : ∀ c ∈ named pieces, c = ['.'] := by
  intro c hc
  obtain ⟨hmem, hne⟩ := List.mem_filter.mp hc
  have hidle := h c hmem
  simp only [isIdle, Bool.or_eq_true, decide_eq_true_eq] at hidle
  exact hidle.resolve_left (by simpa using hne)

theorem exists_trimIdle (pieces : List (List Char)) :
    ∃ idle, pieces = trimIdle pieces ++ idle ∧ (∀ piece ∈ idle, isIdle piece = true) ∧
      ∀ c ∈ (trimIdle pieces).getLast?, isIdle c = false := by
  refine ⟨pieces.rtakeWhile isIdle, (List.rdropWhile_append_rtakeWhile).symm,
    fun _ => List.mem_rtakeWhile_imp, fun c hc => ?_⟩
  obtain ⟨hne, rfl⟩ := List.mem_getLast?_eq_getLast hc
  exact Bool.eq_false_iff.mpr (List.rdropWhile_last_not isIdle pieces hne)

/-- The last piece that leads somewhere, with what is before it and what is behind. -/
theorem exists_last_leading (h : trimIdle pieces ≠ []) :
    ∃ idle c idle', pieces = trimIdle (trimIdle pieces).dropLast ++ (idle ++ c :: idle') ∧ isIdle c = false ∧
      ∀ piece ∈ idle ++ idle', isIdle piece = true := by
  obtain ⟨idle', hpieces, hidle', hlast⟩ := exists_trimIdle pieces
  obtain ⟨idle, hfront, hidle, -⟩ := exists_trimIdle (trimIdle pieces).dropLast
  refine ⟨idle, (trimIdle pieces).getLast h, idle', ?_, hlast _ (List.getLast_mem_getLast? h),
    List.forall_mem_append.mpr ⟨hidle, hidle'⟩⟩
  calc pieces = (trimIdle pieces).dropLast ++ [(trimIdle pieces).getLast h] ++ idle' := by
        rw [List.dropLast_concat_getLast h, ← hpieces]
    _ = trimIdle (trimIdle pieces).dropLast ++ idle ++ [(trimIdle pieces).getLast h] ++ idle' := by rw [← hfront]
    _ = _ := by simp

/-! ### Parents -/

/-- What the parent `a` of a path `p` has to do with it. -/
structure IsParent (p a : Path) : Prop where
  isAbsolute_eq : a.isAbsolute = p.isAbsolute
  /-- The components that are left out are one that may lead somewhere, and single dots around it. -/
  components_eq : ∃ dots c dots', p.components = a.components ++ (dots ++ c :: dots') ∧ ∀ d ∈ dots ++ dots', d = ['.']
  getLast? : a.chars.getLast? = some '/' → a.components = []

theorem isParent_nil (hs : Text.split '/' cs = start :: pieces) (hstart : start ≠ [])
    (hidle : ∀ piece ∈ pieces, isIdle piece = true) : IsParent ⟨cs⟩ ⟨[]⟩ := by
  have hrelative : isAbsolute ⟨cs⟩ = false := by
    rw [Bool.eq_false_iff, Ne, isAbsolute_iff_split hs]
    exact fun h => hstart h.1
  refine ⟨hrelative.symm, ⟨[], start, named pieces, ?_, named_idle hidle⟩, nofun⟩
  rw [components_eq_named hs, named_cons hstart]
  rfl

/-- The parent is put together from the pieces at the start. If there are none but an empty one, it is the root. -/
theorem isParent_of_split {inner idle idle' : List (List Char)} (habs : a.isAbsolute = isAbsolute ⟨cs⟩)
    (hs : Text.split '/' cs = start :: (inner ++ (idle ++ c :: idle'))) (hc : isIdle c = false)
    (hidle : ∀ piece ∈ idle ++ idle', isIdle piece = true) (ha : a.components = named (start :: inner))
    (hend : a.chars.getLast? = some '/' → a.components = []) : IsParent ⟨cs⟩ a := by
  refine ⟨habs, ⟨named idle, c, named idle', ?_, ?_⟩, hend⟩
  · rw [components_eq_named hs, ← List.cons_append, named_append, named_append,
      named_cons (ne_nil_of_not_isIdle hc), ha]
  · rw [← named_append]
    exact named_idle hidle

theorem isParent_join {inner idle idle' : List (List Char)}
    (hs : Text.split '/' cs = start :: (inner ++ (idle ++ c :: idle'))) (hc : isIdle c = false)
    (hidle : ∀ piece ∈ idle ++ idle', isIdle piece = true) (hinner : ∀ last ∈ inner.getLast?, isIdle last = false)
    (hroot : ¬ (inner = [] ∧ start = [])) : IsParent ⟨cs⟩ ⟨Text.join ['/'] (start :: inner)⟩ := by
  have hsplit : Text.split '/' (Text.join ['/'] (start :: inner)) = start :: inner := by
    refine Text.split_join fun piece hpiece hmem => ?_
    have hpiece' : piece ∈ Text.split '/' cs := by
      rw [hs, ← List.cons_append]
      exact List.mem_append_left _ hpiece
    exact (Text.mem_of_mem_split hpiece' hmem).2 rfl
  refine isParent_of_split ?_ hs hc hidle (components_eq_named hsplit) fun hend => ?_
  · rw [Bool.eq_iff_iff, isAbsolute_iff_split hsplit, isAbsolute_iff_split hs]
    exact and_congr_right fun hstart => iff_of_true (fun hinner => hroot ⟨hinner, hstart⟩) (by simp)
  · -- the last piece would be empty
    have hempty := Text.getLast?_split hend
    rw [hsplit] at hempty
    rcases List.eq_nil_or_concat' inner with rfl | ⟨front, last, rfl⟩
    · exact absurd ⟨rfl, Option.some.inj hempty⟩ hroot
    · rw [← List.cons_append, List.getLast?_concat, Option.some.injEq] at hempty
      have hlast := hinner last List.getLast?_concat
      rw [hempty] at hlast
      cases hlast

theorem parent?_spec (h : p.parent? = some a) : p.IsParent a := by
  obtain ⟨cs⟩ := p
  unfold parent? at h
  cases hs : Text.split '/' cs with
  | nil => exact absurd hs (Text.split_ne_nil '/' cs)
  | cons start pieces =>
    rw [hs] at h
    dsimp only at h
    by_cases htrim : trimIdle pieces = []
    · obtain ⟨idle, hpieces, hidle, -⟩ := exists_trimIdle pieces
      rw [htrim, List.nil_append] at hpieces
      subst hpieces
      by_cases hstart : start = []
      · simp [htrim, hstart] at h
      · simp only [htrim, List.isEmpty_nil, if_true, List.isEmpty_iff, hstart, if_false, Option.some.injEq] at h
        subst h
        exact isParent_nil hs hstart hidle
    · obtain ⟨idle, c, idle', hpieces, hc, hidle⟩ := exists_last_leading htrim
      obtain ⟨-, -, -, hinner⟩ := exists_trimIdle (trimIdle pieces).dropLast
      simp only [List.isEmpty_iff, htrim, if_false] at h
      generalize trimIdle (trimIdle pieces).dropLast = inner at h hpieces hinner
      subst hpieces
      by_cases hroot : inner = [] ∧ start = []
      · obtain ⟨rfl, rfl⟩ := hroot
        simp only [List.isEmpty_nil, Bool.and_self, if_true, Option.some.injEq] at h
        subst h
        exact isParent_of_split ((isAbsolute_iff_split hs).mpr ⟨rfl, by simp⟩).symm hs hc hidle rfl fun _ => rfl
      · simp only [Bool.and_eq_true, List.isEmpty_iff, hroot, if_false, Option.some.injEq] at h
        subst h
        exact isParent_join hs hc hidle hinner hroot

/-- A path without a parent leads nowhere. -/
theorem parent?_eq_none (h : p.parent? = none) : ∀ c ∈ p.components, c = ['.'] := by
  obtain ⟨cs⟩ := p
  unfold parent? at h
  cases hs : Text.split '/' cs with
  | nil => exact absurd hs (Text.split_ne_nil '/' cs)
  | cons start pieces =>
    rw [hs] at h
    dsimp only at h
    by_cases htrim : trimIdle pieces = []
    · obtain ⟨idle, hpieces, hidle, -⟩ := exists_trimIdle pieces
      rw [htrim, List.nil_append] at hpieces
      subst hpieces
      by_cases hstart : start = []
      · subst hstart
        rw [components_eq_named hs]
        show ∀ c ∈ named pieces, c = ['.']
        exact named_idle hidle
      · simp [htrim, hstart] at h
    · simp only [List.isEmpty_iff, htrim, if_false] at h
      split at h <;> cases h

/-! ### All directories that a path lies in -/

theorem IsParent.prefix_components (h : p.IsParent a) :
    a.components <+: p.components ∧ a.components ≠ p.components := by
  obtain ⟨dots, c, dots', heq, -⟩ := h.components_eq
  refine ⟨⟨_, heq.symm⟩, fun hsame => ?_⟩
  rw [← hsame] at heq
  simp at heq

theorem LiesIn.prefix_components (h : p.LiesIn a) : a.components <+: p.components ∧ a.components ≠ p.components := by
  induction h with
  | single hpa => exact (parent?_spec hpa).prefix_components
  | tail _ hab ih =>
    obtain ⟨hpre, hne⟩ := (parent?_spec hab).prefix_components
    refine ⟨hpre.trans ih.1, fun hsame => hne ?_⟩
    have hback := ih.1
    rw [← hsame] at hback
    exact hpre.eq_of_length_le hback.length_le

end Path

end Compendium
