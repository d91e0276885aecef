import Compendium.Proofs.Shield

/-!
# All references are behind the shield

What a character reference looks like is said by its parts (`CharRef.IsReference`), and the text after an
ampersand completes one exactly if such a reference begins there (`CharRef.completes_iff`). References have
their only ampersand in front, so no two of them overlap. For this reason it is the same to look at each
ampersand on its own as to go over the text once, from reference to reference (`CharRef.pass_iff`), and no
reference is left or comes about by this (`CharRef.shield_is_complete`).
-/

namespace Compendium.Markdown.CharRef

variable {p : Char → Bool} {low high : Nat} {c : Char} {cs ds text out front rest body w : List Char}

/-- What a reference has between its ampersand and its semicolon. -/
inductive IsBody : List Char → Prop
  | decimal {ds : List Char} (hlow : 1 ≤ ds.length) (hhigh : ds.length ≤ 7) (hds : ∀ d ∈ ds, d.isDigit = true) :
      IsBody ('#' :: ds)
  | hexadecimal {x : Char} {ds : List Char} (hx : x = 'x' ∨ x = 'X') (hlow : 1 ≤ ds.length) (hhigh : ds.length ≤ 6)
      (hds : ∀ d ∈ ds, Text.isHexDigit d = true) : IsBody ('#' :: x :: ds)
  | name {c : Char} {cs : List Char} (hc : c.isAlpha = true) (hlow : 1 ≤ cs.length) (hhigh : cs.length ≤ 31)
      (hcs : ∀ c ∈ cs, c.isAlphanum = true) : IsBody (c :: cs)

/-- A whole reference, from its ampersand to its semicolon. -/
def IsReference (w : List Char) : Prop := ∃ body, IsBody body ∧ w = '&' :: (body ++ [';'])

/-- A reference stands at the beginning of the text. -/
def Begins (cs : List Char) : Prop := ∃ w, IsReference w ∧ w <+: cs

/-! ### What completes a reference -/

theorem dropWhile_eq_cons (hds : ∀ d ∈ ds, p d = true) (hc : p c = false) (rest : List Char) :
    (ds ++ c :: rest).takeWhile p = ds ∧ (ds ++ c :: rest).dropWhile p = c :: rest := by
  rw [List.takeWhile_append_of_pos hds, List.dropWhile_append_of_pos hds]
  simp [hc]

theorem endsAfter_iff (hp : p ';' = false) : endsAfter p low high cs = true ↔
    ∃ ds rest, cs = ds ++ ';' :: rest ∧ low ≤ ds.length ∧ ds.length ≤ high ∧ ∀ d ∈ ds, p d = true := by
  simp only [endsAfter, Bool.and_eq_true, decide_eq_true_eq]
  constructor
  · rintro ⟨⟨hlow, hhigh⟩, hsemicolon⟩
    obtain ⟨rest, hrest⟩ := List.head?_eq_some_iff.mp hsemicolon
    refine ⟨cs.takeWhile p, rest, ?_, hlow, hhigh, fun d hd => List.mem_takeWhile_imp hd⟩
    rw [← hrest, List.takeWhile_append_dropWhile]
  · rintro ⟨ds, rest, rfl, hlow, hhigh, hds⟩
    obtain ⟨htake, hdrop⟩ := dropWhile_eq_cons hds hp rest
    rw [htake, hdrop]
    exact ⟨⟨hlow, hhigh⟩, rfl⟩

theorem completes_hash (hc : c ≠ 'x' ∧ c ≠ 'X') :
    completes ('#' :: c :: cs) = endsAfter Char.isDigit 1 7 (c :: cs) := by
  simp [completes, hc]

theorem completes_of_ne (hc : c ≠ '#') : completes (c :: cs) = (c.isAlpha && endsAfter Char.isAlphanum 1 31 cs) := by
  simp [completes, hc]

/-- The text after an ampersand completes a reference exactly if it begins with what one can have there. -/
theorem completes_iff : completes cs = true ↔ ∃ body rest, IsBody body ∧ cs = body ++ ';' :: rest := by
  constructor
  · intro h
    unfold completes at h
    split at h
    · obtain ⟨ds, rest, rfl, hlow, hhigh, hds⟩ := (endsAfter_iff (by decide)).mp h
      exact ⟨_, rest, .hexadecimal (Or.inl rfl) hlow hhigh hds, rfl⟩
    · obtain ⟨ds, rest, rfl, hlow, hhigh, hds⟩ := (endsAfter_iff (by decide)).mp h
      exact ⟨_, rest, .hexadecimal (Or.inr rfl) hlow hhigh hds, rfl⟩
    · obtain ⟨ds, rest, rfl, hlow, hhigh, hds⟩ := (endsAfter_iff (by decide)).mp h
      exact ⟨_, rest, .decimal hlow hhigh hds, rfl⟩
    · obtain ⟨hc, hcs⟩ := Bool.and_eq_true_iff.mp h
      obtain ⟨ds, rest, rfl, hlow, hhigh, hds⟩ := (endsAfter_iff (by decide)).mp hcs
      exact ⟨_, rest, .name hc hlow hhigh hds, rfl⟩
    · cases h
  · rintro ⟨body, rest, hbody, rfl⟩
    cases hbody with
    | @decimal ds hlow hhigh hds =>
      have hends := (endsAfter_iff (by decide)).mpr ⟨ds, rest, rfl, hlow, hhigh, hds⟩
      obtain ⟨d, ds, rfl⟩ := List.exists_cons_of_length_pos hlow
      have hd : d.isDigit = true := hds d (List.mem_cons_self ..)
      have hx : d ≠ 'x' ∧ d ≠ 'X' := by
        constructor
        all_goals
          rintro rfl
          exact absurd hd (by decide)
      rwa [List.cons_append, List.cons_append, completes_hash hx]
    | @hexadecimal x ds hx hlow hhigh hds =>
      have hends := (endsAfter_iff (by decide)).mpr ⟨ds, rest, rfl, hlow, hhigh, hds⟩
      rcases hx with rfl | rfl
      · exact hends
      · exact hends
    | @name c ds hc hlow hhigh hds =>
      have hends := (endsAfter_iff (by decide)).mpr ⟨ds, rest, rfl, hlow, hhigh, hds⟩
      have hhash : c ≠ '#' := by
        rintro rfl
        exact absurd hc (by decide)
      rw [List.cons_append, completes_of_ne hhash, hc, hends]
      rfl

theorem begins_cons_iff : Begins (c :: cs) ↔ c = '&' ∧ completes cs = true := by
  rw [completes_iff]
  constructor
  · rintro ⟨_, ⟨body, hbody, rfl⟩, rest, hrest⟩
    rw [List.cons_append, List.append_assoc] at hrest
    obtain ⟨rfl, rfl⟩ := List.cons.inj hrest
    exact ⟨rfl, body, rest, hbody, rfl⟩
  · rintro ⟨rfl, body, rest, hbody, rfl⟩
    exact ⟨_, ⟨body, hbody, rfl⟩, rest, by simp⟩

theorem not_begins_nil : ¬ Begins [] := by
  rintro ⟨_, ⟨body, -, rfl⟩, rest, hrest⟩
  cases hrest

instance : DecidablePred Begins
  | [] => isFalse not_begins_nil
  | _ :: _ => decidable_of_iff' _ begins_cons_iff

/-! ### One ampersand after the other -/

theorem shield_cons (c : Char) (cs : List Char) :
    shield (c :: cs) = (if Begins (c :: cs) then mark else c) :: shield cs := by
  rw [shield]
  by_cases h : Begins (c :: cs)
  · obtain ⟨hc, hcs⟩ := begins_cons_iff.mp h
    rw [if_pos h, hc, hcs]
    rfl
  · rw [if_neg h, if_neg fun heq => h (begins_cons_iff.mpr (by simpa using heq))]

/-- Every character stays in its place, except for the ampersands that references begin with. -/
theorem getElem?_shield (text : List Char) (i : Nat) :
    (shield text)[i]? = text[i]?.map fun c => if Begins (text.drop i) then mark else c := by
  induction text generalizing i with
  | nil => rfl
  | cons c cs ih =>
    rw [shield_cons]
    cases i with
    | zero => rfl
    | succ i =>
      rw [List.getElem?_cons_succ, List.getElem?_cons_succ, ih]
      rfl

theorem length_shield (text : List Char) : (shield text).length = text.length := by
  induction text with
  | nil => rfl
  | cons c cs ih => rw [shield_cons, List.length_cons, List.length_cons, ih]

/-- Between the ampersand and the semicolon, a reference has neither a further ampersand nor the mark. -/
theorem IsBody.not_mem (h : IsBody body) : '&' ∉ body ∧ mark ∉ body := by
  have hplain {p : Char → Bool} {ds : List Char} (hds : ∀ d ∈ ds, p d = true) (hand : p '&' = false)
      (hmark : p mark = false) : '&' ∉ ds ∧ mark ∉ ds := by
    constructor
    · intro hmem
      exact absurd (hds _ hmem) (by rw [hand]; exact Bool.false_ne_true)
    · intro hmem
      exact absurd (hds _ hmem) (by rw [hmark]; exact Bool.false_ne_true)
  have hhash : '&' ≠ '#' ∧ mark ≠ '#' := by decide
  cases h with
  | @decimal ds _ _ hds =>
    obtain ⟨hand, hmark⟩ := hplain hds (by decide) (by decide)
    simp [hhash, hand, hmark]
  | @hexadecimal x ds hx _ _ hds =>
    obtain ⟨hand, hmark⟩ := hplain hds (by decide) (by decide)
    have hx' : '&' ≠ x ∧ mark ≠ x := by
      rcases hx with rfl | rfl <;> decide
    simp [hhash, hx', hand, hmark]
  | @name c cs hc _ _ hcs =>
    obtain ⟨hand, hmark⟩ := hplain hcs (by decide) (by decide)
    have hc' : '&' ≠ c ∧ mark ≠ c := by
      constructor
      all_goals
        rintro rfl
        exact absurd hc (by decide)
    simp [hc', hand, hmark]

theorem shield_append_of_not_mem (h : '&' ∉ w) (rest : List Char) : shield (w ++ rest) = w ++ shield rest := by
  induction w with
  | nil => rfl
  | cons c w ih =>
    rw [List.mem_cons, not_or] at h
    have hc : ¬ Begins (c :: (w ++ rest)) := fun hbegins => h.1 (begins_cons_iff.mp hbegins).1.symm
    rw [List.cons_append, shield_cons, if_neg hc, ih h.2, List.cons_append]

/-- What the shielded text begins with, but for marks, was there before. -/
theorem exists_of_shield_eq_append (h : shield text = w ++ out) (hw : mark ∉ w) :
    ∃ rest, text = w ++ rest ∧ out = shield rest := by
  induction w generalizing text with
  | nil => exact ⟨text, rfl, h.symm⟩
  | cons c w ih =>
    rw [List.mem_cons, not_or] at hw
    cases text with
    | nil => cases h
    | cons d text =>
      rw [shield_cons, List.cons_append] at h
      obtain ⟨hhead, htail⟩ := List.cons.inj h
      obtain ⟨rest, rfl, rfl⟩ := ih htail hw.2
      refine ⟨rest, ?_, rfl⟩
      split at hhead
      · exact absurd hhead hw.1
      · rw [hhead, List.cons_append]

/-- No reference begins anywhere in a shielded text. -/
theorem not_begins_shield (text : List Char) : ¬ Begins (shield text) := by
  rintro ⟨_, ⟨body, hbody, rfl⟩, out, hout⟩
  have hmark : mark ∉ '&' :: (body ++ [';']) := by
    have hends : mark ≠ '&' ∧ mark ≠ ';' := by decide
    simp [hends, hbody.not_mem.2]
  obtain ⟨rest, rfl, -⟩ := exists_of_shield_eq_append hout.symm hmark
  -- the reference was there before, so its ampersand is hidden
  have hbegins : Begins ('&' :: (body ++ [';'] ++ rest)) := ⟨_, ⟨body, hbody, rfl⟩, List.prefix_append ..⟩
  rw [List.cons_append, List.cons_append, shield_cons, if_pos hbegins] at hout
  exact absurd (List.cons.inj hout).1 (by decide)

theorem shield_eq_append (h : shield text = front ++ out) : ∃ rest, out = shield rest := by
  induction front generalizing text with
  | nil => exact ⟨text, h.symm⟩
  | cons c front ih =>
    cases text with
    | nil => cases h
    | cons d text =>
      rw [shield_cons, List.cons_append] at h
      exact ih (List.cons.inj h).2

theorem not_isReference_of_infix (h : w <:+: shield text) : ¬ IsReference w := by
  intro hw
  obtain ⟨front, behind, heq⟩ := h
  rw [List.append_assoc] at heq
  obtain ⟨rest, hrest⟩ := shield_eq_append heq.symm
  exact not_begins_shield rest ⟨w, hw, behind, hrest⟩

/-! ### From reference to reference -/

/-- One pass over a text, from left to right. Where a reference begins, its ampersand is replaced and the pass goes on
behind the semicolon. Any other character is copied. -/
inductive Pass : List Char → List Char → Prop
  | nil : Pass [] []
  | reference {body rest out : List Char} (hbody : IsBody body) (hrest : Pass rest out) :
      Pass ('&' :: (body ++ ';' :: rest)) (mark :: (body ++ ';' :: out))
  | copy {c : Char} {cs out : List Char} (hc : ¬ Begins (c :: cs)) (hcs : Pass cs out) : Pass (c :: cs) (c :: out)

theorem shield_reference (hbody : IsBody body) (rest : List Char) :
    shield ('&' :: (body ++ ';' :: rest)) = mark :: (body ++ ';' :: shield rest) := by
  have hbegins : Begins ('&' :: (body ++ ';' :: rest)) := ⟨_, ⟨body, hbody, rfl⟩, rest, by simp⟩
  have hplain : '&' ∉ body ++ [';'] := by simp [hbody.not_mem.1]
  have htail := shield_append_of_not_mem hplain rest
  rw [List.append_assoc, List.append_assoc] at htail
  rw [shield_cons, if_pos hbegins]
  exact congrArg _ htail

theorem Pass.eq_shield (h : Pass text out) : out = shield text := by
  induction h with
  | nil => rfl
  | reference hbody _ ih => rw [shield_reference hbody, ih]
  | copy hc _ ih => rw [shield_cons, if_neg hc, ih]

theorem pass_shield (text : List Char) : Pass text (shield text) := by
  -- behind a reference the rest of the text is shorter, but not just by one character
  induction hn : text.length using Nat.strong_induction_on generalizing text with
  | _ n ih =>
    cases text with
    | nil => exact .nil
    | cons c cs =>
      by_cases hbegins : Begins (c :: cs)
      · obtain ⟨rfl, hcs⟩ := begins_cons_iff.mp hbegins
        obtain ⟨body, rest, hbody, rfl⟩ := completes_iff.mp hcs
        have hshorter : rest.length < n := by
          simp only [List.length_cons, List.length_append] at hn
          omega
        rw [shield_reference hbody]
        exact .reference hbody (ih _ hshorter rest rfl)
      · rw [shield_cons, if_neg hbegins]
        exact .copy hbegins (ih _ (by simp [← hn]) cs rfl)

theorem pass_iff : Pass text out ↔ out = shield text :=
  ⟨Pass.eq_shield, fun h => h ▸ pass_shield text⟩

/-- A shielded text has no reference in it. It is as long as the text, and at every place it has the character of the
text, except that the mark stands where a reference of the text begins. It is what one pass over the text gives that
goes on behind each reference, and nothing else is. -/
theorem shield_is_complete (text : List Char) :
    (∀ w, w <:+: shield text → ¬ IsReference w) ∧
    (shield text).length = text.length ∧
    (∀ i : Nat, (shield text)[i]? = text[i]?.map fun c => if Begins (text.drop i) then mark else c) ∧
    ∀ out, Pass text out ↔ out = shield text :=
  ⟨fun _ => not_isReference_of_infix, length_shield text, getElem?_shield text, fun _ => pass_iff⟩

end Compendium.Markdown.CharRef
