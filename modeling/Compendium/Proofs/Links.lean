import Compendium.Proofs.Citations

/-!
# Links beside citations

A stretch of a text stays as it is exactly if no citation overlaps it (`Citation.stays_iff`). The brackets of a
link may do so where they look like a citation themselves. Of a link with its target in parentheses or in
a second pair of brackets, the text is safe, since something opens right behind it. The second pair of brackets
is not, nor is the inner pair of a link that is written with two pairs, one in the other: they stay unless they
list known keys.
-/

namespace Compendium

namespace Citation

variable {b : Bibliography} {known keys : List (List Char)} {front part part' rest x body : List Char}

/-! ### Stretches that stay -/

/-- The characters of a stretch of a text stay, between what becomes of the text in front of it and behind
it. -/
def Stays (b : Bibliography) (front part rest : List Char) : Prop :=
  ∃ before behind, Cuts b.known (front ++ part ++ rest) (before ++ part.map .kept ++ behind) ∧
    before.flatMap Piece.source = front ∧ behind.flatMap Piece.source = rest ∧
    b.resolve (front ++ part ++ rest) = before.flatMap Piece.result ++ part ++ behind.flatMap Piece.result

/-- No citation overlaps a stretch of a text: each one ends before it or begins behind it. -/
def Untouched (known : List (List Char)) (front part rest : List Char) : Prop :=
  ∀ front' keys body rest', front ++ part ++ rest = front' ++ bracketed body ++ rest' →
    Cites known keys body rest' → front' ++ bracketed body <+: front ∨ front ++ part <+: front'

/-- Pieces can be parted where their text is, unless this is inside a citation. -/
theorem exists_parted {ps : List Piece} (h : ps.flatMap Piece.source = front ++ rest) :
    (∃ before behind, ps = before ++ behind ∧ before.flatMap Piece.source = front ∧
      behind.flatMap Piece.source = rest) ∨
    ∃ before keys body behind, ps = before ++ .cited keys body :: behind ∧
      (before.flatMap Piece.source).length < front.length ∧
      front.length < (before.flatMap Piece.source).length + body.length + 2 := by
  induction ps generalizing front with
  | nil =>
    obtain ⟨rfl, rfl⟩ := List.append_eq_nil_iff.mp h.symm
    exact Or.inl ⟨[], [], rfl, rfl, rfl⟩
  | cons p ps ih =>
    rw [List.flatMap_cons] at h
    rcases List.append_eq_append_iff.mp h with ⟨front', rfl, hrest⟩ | ⟨inner, hp, rfl⟩
    · rcases ih hrest with ⟨before, behind, rfl, rfl, hbehind⟩ | ⟨before, keys, body, behind, rfl, hlt, hlt'⟩
      · exact Or.inl ⟨p :: before, behind, rfl, rfl, hbehind⟩
      · refine Or.inr ⟨p :: before, keys, body, behind, rfl, ?_⟩
        rw [List.flatMap_cons, List.length_append, List.length_append]
        omega
    · -- the text is parted in the first piece
      cases front with
      | nil => exact Or.inl ⟨[], p :: ps, rfl, rfl, by rw [List.flatMap_cons, hp]; rfl⟩
      | cons c front =>
        cases inner with
        | nil => exact Or.inl ⟨[p], ps, rfl, by simpa using hp, rfl⟩
        | cons d inner =>
          cases p with
          | kept e => simp [Piece.source] at hp
          | cited keys body =>
            have hlength := congrArg List.length hp
            rw [Piece.source, length_bracketed, List.length_append, List.length_cons, List.length_cons] at hlength
            refine Or.inr ⟨[], keys, body, ps, rfl, ?_⟩
            simp only [List.flatMap_nil, List.length_nil, List.length_cons]
            omega

theorem eq_map_kept {ps : List Piece} (h : ∀ keys body, .cited keys body ∉ ps) :
    ps = (ps.flatMap Piece.source).map .kept := by
  induction ps with
  | nil => rfl
  | cons p ps ih =>
    cases p with
    | kept c =>
      have hps := ih fun keys body hmem => h keys body (List.mem_cons_of_mem _ hmem)
      exact congrArg (.kept c :: ·) hps
    | cited keys body => exact absurd (List.mem_cons_self ..) (h keys body)

theorem Untouched.length_le {before behind : List Piece} (h : Untouched known front part rest)
    (hps : Cuts known (front ++ part ++ rest) (before ++ .cited keys body :: behind)) :
    (before.flatMap Piece.source).length + body.length + 2 ≤ front.length ∨
      front.length + part.length ≤ (before.flatMap Piece.source).length := by
  obtain ⟨htext, hcites⟩ := hps.cited_iff.mpr ⟨before, behind, rfl, rfl, rfl⟩
  rcases h _ _ _ _ htext hcites with hle | hle
  · have hlength := hle.length_le
    rw [List.length_append, length_bracketed] at hlength
    exact Or.inl (by omega)
  · have hlength := hle.length_le
    rw [List.length_append] at hlength
    exact Or.inr hlength

theorem Untouched.exists_kept {ps : List Piece} (h : Untouched known front part rest)
    (hps : Cuts known (front ++ part ++ rest) ps) :
    ∃ before behind, ps = before ++ part.map .kept ++ behind ∧ before.flatMap Piece.source = front ∧
      behind.flatMap Piece.source = rest := by
  have hsource := hps.source_eq
  rw [List.append_assoc] at hsource
  rcases exists_parted hsource with ⟨before, others, rfl, rfl, hothers⟩ | ⟨before, _, _, _, rfl, hlt, hlt'⟩
  · rcases exists_parted hothers with ⟨inner, behind, rfl, rfl, rfl⟩ | ⟨inner, _, _, behind, rfl, hlt, hlt'⟩
    · refine ⟨before, behind, ?_, rfl, rfl⟩
      rw [← eq_map_kept, List.append_assoc]
      intro keys body hmem
      obtain ⟨first, last, rfl⟩ := List.append_of_mem hmem
      have hpieces : before ++ ((first ++ .cited keys body :: last) ++ behind) =
          (before ++ first) ++ .cited keys body :: (last ++ behind) := by simp
      rcases h.length_le (hpieces ▸ hps) with hle | hle <;>
        simp only [List.flatMap_append, List.flatMap_cons, List.length_append, Piece.source,
          length_bracketed] at hle <;> omega
    · rw [← List.append_assoc] at hps
      rcases h.length_le hps with hle | hle <;>
        simp only [List.flatMap_append, List.length_append] at hle <;> omega
  · rcases h.length_le hps with hle | hle <;> omega

theorem cited_outside {before behind first last : List Piece}
    (h : before ++ part.map .kept ++ behind = first ++ .cited keys body :: last) :
    (∃ middle, before = first ++ .cited keys body :: middle) ∨
      ∃ middle, first = before ++ part.map .kept ++ middle := by
  have hkept : Piece.cited keys body ∉ part.map .kept := by simp
  rcases List.append_eq_append_iff.mp h with ⟨middle, hfirst, -⟩ | ⟨inner, hinner, hlast⟩
  · exact Or.inr ⟨middle, hfirst⟩
  · cases inner with
    | nil => exact Or.inr ⟨[], by simpa using hinner.symm⟩
    | cons p inner =>
      obtain ⟨rfl, -⟩ := List.cons.inj hlast
      rcases List.append_eq_append_iff.mp hinner with ⟨middle, -, hpart⟩ | ⟨middle, hbefore, hpart⟩
      · exact absurd (hpart ▸ List.mem_append_right _ (List.mem_cons_self ..)) hkept
      · cases middle with
        | nil =>
          rw [List.nil_append] at hpart
          exact absurd (hpart ▸ List.mem_cons_self ..) hkept
        | cons p middle =>
          obtain ⟨rfl, -⟩ := List.cons.inj hpart
          exact Or.inl ⟨middle, hbefore⟩

/-- A stretch of a text stays exactly if no citation overlaps it. -/
theorem stays_iff : Stays b front part rest ↔ Untouched b.known front part rest := by
  constructor
  · rintro ⟨before, behind, hps, rfl, rfl, -⟩ front' keys body rest' htext hcites
    obtain ⟨first, last, heq, rfl, -⟩ := hps.cited_iff.mp ⟨htext, hcites⟩
    rcases cited_outside heq with ⟨middle, rfl⟩ | ⟨middle, rfl⟩
    · refine Or.inl ⟨middle.flatMap Piece.source, ?_⟩
      simp [Piece.source]
    · refine Or.inr ⟨middle.flatMap Piece.source, ?_⟩
      simp only [List.flatMap_append, flatMap_source_kept]
  · intro h
    obtain ⟨ps, hps, -⟩ := exists_cuts_resolve b (front ++ part ++ rest)
    obtain ⟨before, behind, rfl, hbefore, hbehind⟩ := h.exists_kept hps
    refine ⟨before, behind, hps, hbefore, hbehind, ?_⟩
    rw [hps.resolve_eq, List.flatMap_append, List.flatMap_append, flatMap_result_kept]

theorem untouched_append_iff : Untouched known front (part ++ part') rest ↔
    Untouched known front part (part' ++ rest) ∧ Untouched known (front ++ part) part' rest := by
  have htext : front ++ (part ++ part') ++ rest = front ++ part ++ (part' ++ rest) := by simp
  have htext' : front ++ (part ++ part') ++ rest = front ++ part ++ part' ++ rest := by simp
  unfold Untouched
  rw [← htext, ← htext', List.append_assoc front part part', ← forall_and]
  refine forall_congr' fun front' => ?_
  simp only [← forall_and]
  refine forall_congr' fun keys => forall_congr' fun body => forall_congr' fun rest' =>
    forall_congr' fun _ => forall_congr' fun _ => ?_
  constructor
  · rintro (h | h)
    · exact ⟨Or.inl h, Or.inl (h.trans (List.prefix_append ..))⟩
    · refine ⟨Or.inr (List.IsPrefix.trans ?_ h), Or.inr h⟩
      rw [← List.append_assoc]
      exact List.prefix_append ..
  · rintro ⟨h | h, h' | h'⟩
    · exact Or.inl h
    · exact Or.inr h'
    · -- it cannot lie between the two, since it is not empty
      have hlength := (h'.trans h).length_le
      rw [List.length_append, length_bracketed] at hlength
      omega
    · exact Or.inr h'

/-! ### Brackets that stay -/

/-- Of brackets without brackets in them, no citation has a part unless they are one. -/
theorem untouched_bracketed_iff (hx : Unbracketed x) :
    Untouched known front (bracketed x) rest ↔ ¬ ∃ keys, Cites known keys x rest := by
  constructor
  · rintro h ⟨keys, hcites⟩
    rcases h _ _ _ _ rfl hcites with hle | hle <;>
      · have hlength := hle.length_le
        rw [List.length_append, length_bracketed] at hlength
        omega
  · intro h front' keys body rest' htext hcites
    rcases bracketed_apart hx hcites.lists.unbracketed htext with ⟨-, rfl, rfl⟩ | hle | hle
    · exact absurd ⟨keys, hcites⟩ h
    · exact Or.inr hle
    · exact Or.inl hle

theorem untouched_open (hx : Unbracketed x) : Untouched known front ['['] (bracketed x ++ rest) := by
  intro front' keys body rest' htext hcites
  rw [← List.append_assoc] at htext
  rcases bracketed_apart hx hcites.lists.unbracketed htext with ⟨rfl, -⟩ | hle | hle
  · exact Or.inr List.prefix_rfl
  · exact Or.inr ((List.prefix_append ..).trans hle)
  · rcases List.prefix_concat_iff.mp hle with heq | hle
    · rw [bracketed, ← List.append_assoc] at heq
      exact absurd (List.append_inj' heq rfl).2 (by decide)
    · exact Or.inl hle

theorem untouched_close (hx : Unbracketed x) : Untouched known (front ++ bracketed x) [']'] rest := by
  intro front' keys body rest' htext hcites
  rw [List.append_assoc] at htext
  rcases bracketed_apart hx hcites.lists.unbracketed htext with ⟨rfl, rfl, -⟩ | ⟨between, rfl⟩ | hle
  · exact Or.inl List.prefix_rfl
  · rw [List.append_assoc _ between, List.append_assoc _ (between ++ _), List.append_cancel_left_eq,
      List.append_assoc, bracketed_append] at htext
    cases between with
    | nil => cases (List.cons.inj htext).1
    | cons c between =>
      obtain ⟨rfl, -⟩ := List.cons.inj htext
      exact Or.inr ⟨between, by simp⟩
  · exact Or.inl (hle.trans (List.prefix_append ..))

/-- What becomes of the brackets of a link. Those around its text stay if its target follows in parentheses or
in a second pair. The second pair stays exactly if it is no citation of its own; and so does the inner pair of a
link that is written with one pair in the other, of which the outer brackets stay. -/
theorem links_stay_unless_cited (b : Bibliography) (front rest : List Char) :
    (∀ label, Unbracketed label → Stays b front (bracketed label) ('(' :: rest)) ∧
    (∀ label ref, Unbracketed label → Unbracketed ref →
      Stays b front (bracketed label) (bracketed ref ++ rest) ∧
        (Stays b front (bracketed label ++ bracketed ref) rest ↔ ¬ ∃ keys, Cites b.known keys ref rest)) ∧
    ∀ target, Unbracketed target →
      Stays b front ['['] (bracketed target ++ ']' :: rest) ∧
        Stays b (front ++ ['['] ++ bracketed target) [']'] rest ∧
        (Stays b front (bracketed (bracketed target)) rest ↔
          ¬ ∃ keys, Lists keys target ∧ ∀ k ∈ keys, k ∈ b.known) := by
  simp only [stays_iff]
  refine ⟨fun label hlabel => ?_, fun label ref hlabel href => ?_, fun target htarget => ?_⟩
  · rw [untouched_bracketed_iff hlabel]
    rintro ⟨keys, hcites⟩
    exact hcites.not_link.1 rfl
  · have hfirst : Untouched b.known front (bracketed label) (bracketed ref ++ rest) := by
      rw [untouched_bracketed_iff hlabel]
      rintro ⟨keys, hcites⟩
      exact hcites.not_link.2 rfl
    refine ⟨hfirst, ?_⟩
    rw [untouched_append_iff, and_iff_right hfirst, untouched_bracketed_iff href]
  · have houter : bracketed (bracketed target) = ['['] ++ (bracketed target ++ [']']) := rfl
    have hopen : Untouched b.known front ['['] (bracketed target ++ ']' :: rest) := untouched_open htarget
    have hclose : Untouched b.known (front ++ ['['] ++ bracketed target) [']'] rest := untouched_close htarget
    refine ⟨hopen, hclose, ?_⟩
    rw [houter, untouched_append_iff, List.append_assoc, List.singleton_append, and_iff_right hopen,
      untouched_append_iff, and_iff_left hclose, untouched_bracketed_iff htarget, not_iff_not]
    refine exists_congr fun keys => ⟨fun hcites => ⟨hcites.lists, hcites.mem_known⟩, ?_⟩
    rintro ⟨hlists, hknown⟩
    exact ⟨hlists, hknown, by simp⟩

def textOnly : Bibliography := ⟨["l"]⟩

theorem links_stay_unless_cited_textOnly :
    Unbracketed "l".toList ∧ Unbracketed "r".toList ∧
      Stays textOnly "a".toList (bracketed "l".toList) "(l)".toList ∧
      Stays textOnly "a".toList (bracketed "l".toList ++ bracketed "r".toList) ".".toList ∧
      Stays textOnly "a".toList (bracketed (bracketed "r".toList)) ".".toList ∧
      ¬ Stays textOnly "a".toList (bracketed (bracketed "l".toList)) ".".toList := by
  have hl : Unbracketed "l".toList := by decide
  have hr : Unbracketed "r".toList := by decide
  have hlists : Lists ["l".toList] "l".toList := keys?_eq_some_iff.mp (by decide)
  have hunknown (keys : List (List Char)) (h : Lists keys "r".toList) : ¬ ∀ k ∈ keys, k ∈ textOnly.known := by
    rw [h.unique (keys?_eq_some_iff.mp (by decide) : Lists ["r".toList] "r".toList)]
    decide
  obtain ⟨hinline, -⟩ := links_stay_unless_cited textOnly "a".toList "l)".toList
  obtain ⟨-, hreference, hinner⟩ := links_stay_unless_cited textOnly "a".toList ".".toList
  refine ⟨hl, hr, hinline _ hl, (hreference _ _ hl hr).2.mpr ?_, (hinner _ hr).2.2.mpr ?_, fun h => ?_⟩
  · rintro ⟨keys, hcites⟩
    exact hunknown keys hcites.lists hcites.mem_known
  · rintro ⟨keys, hkeys, hknown⟩
    exact hunknown keys hkeys hknown
  · exact (hinner _ hl).2.2.mp h ⟨_, hlists, by decide⟩

/-- The targets of two links, one in a second pair of brackets and one in an inner pair, are taken for citations if
they are known keys. -/
theorem targets_are_cited :
    ¬ Stays ⟨["k"]⟩ [] (bracketed "l".toList ++ bracketed "k".toList) " [[k]]".toList ∧
      ¬ Stays ⟨["k"]⟩ "[l][k] ".toList (bracketed (bracketed "k".toList)) [] ∧
      Bibliography.resolve ⟨["k"]⟩ "[l][k] [[k]]".toList = "[l]\\cite\x7bk\x7d [\\cite\x7bk\x7d]".toList := by
  have hlists : Lists ["k".toList] "k".toList := keys?_eq_some_iff.mp (by decide)
  -- in both, the pair of brackets around the key is a stretch of its own
  have hpair (front rest : List Char) (hrest : rest.head? ≠ some '(' ∧ rest.head? ≠ some '[') :
      ¬ Untouched (Bibliography.known ⟨["k"]⟩) front (bracketed "k".toList) rest := fun h =>
    (untouched_bracketed_iff (by decide)).mp h ⟨_, hlists, by decide, hrest⟩
  refine ⟨fun h => ?_, fun h => ?_, by decide +kernel⟩
  · exact hpair _ _ (by decide) (untouched_append_iff.mp (stays_iff.mp h)).2
  · have houter : bracketed (bracketed "k".toList) = ['['] ++ (bracketed "k".toList ++ [']']) := rfl
    rw [stays_iff, houter, untouched_append_iff, untouched_append_iff] at h
    exact hpair _ _ (by decide) h.2.1

end Citation

end Compendium
