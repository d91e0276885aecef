import Compendium.Proofs.KeyLists

/-!
# Citations

Which citations a text has can be said without reading it in any order: a citation is a pair of brackets
around a list of known keys, unless it belongs to a link (`Citation.Cites`). Pairs of brackets without
brackets in them are apart from each other (`Citation.bracketed_apart`), so there is one way only to cut a
text into its citations and the characters that stay (`Citation.Cuts.unique`). The pieces say what becomes of
the text (`Citation.exists_cuts`).
-/

namespace Compendium

namespace Citation

variable {x y body body' rest rest' front front' : List Char} {keys keys' known : List (List Char)}

/-! ### Pairs of brackets -/

def bracketed (cs : List Char) : List Char := '[' :: cs ++ [']']

theorem length_bracketed (cs : List Char) : (bracketed cs).length = cs.length + 2 := by
  simp [bracketed]

theorem bracketed_append (cs rest : List Char) : bracketed cs ++ rest = '[' :: (cs ++ ']' :: rest) := by
  simp [bracketed]

/-- What stands before the first closing bracket of a text. -/
theorem eq_of_append_close (hx : ']' ∉ x) (hy : ']' ∉ y) (h : x ++ ']' :: rest = y ++ ']' :: rest') :
    x = y ∧ rest = rest' := by
  induction x generalizing y with
  | nil =>
    cases y with
    | nil => exact ⟨rfl, (List.cons.inj h).2⟩
    | cons d y => exact absurd (List.mem_cons.mpr (Or.inl (List.cons.inj h).1)) hy
  | cons c x ih =>
    cases y with
    | nil => exact absurd (List.mem_cons.mpr (Or.inl (List.cons.inj h).1.symm)) hx
    | cons d y =>
      obtain ⟨hcd, htail⟩ := List.cons.inj h
      rw [List.mem_cons, not_or] at hx hy
      obtain ⟨hxy, hrest⟩ := ih hx.2 hy.2 htail
      exact ⟨by rw [hcd, hxy], hrest⟩

/-- Another pair of brackets in a text that starts with one is the same, or it comes later. -/
theorem bracketed_append_cases (hx : Unbracketed x) (hy : Unbracketed y)
    (h : bracketed x ++ rest = front ++ bracketed y ++ rest') :
    (front = [] ∧ x = y ∧ rest = rest') ∨
      ∃ between, front = bracketed x ++ between ∧ rest = between ++ bracketed y ++ rest' := by
  rw [List.append_assoc, bracketed_append, bracketed_append] at h
  cases front with
  | nil =>
    have hclose := (List.cons.inj h).2
    exact Or.inl ⟨rfl, eq_of_append_close hx.2 hy.2 hclose⟩
  | cons c front =>
    obtain ⟨rfl, htail⟩ := List.cons.inj h
    refine Or.inr ?_
    rcases List.append_eq_append_iff.mp htail with ⟨later, rfl, hlater⟩ | ⟨later, rfl, hlater⟩
    · cases later with
      | nil => simp at hlater
      | cons d later =>
        obtain ⟨rfl, rfl⟩ := List.cons.inj hlater
        exact ⟨later, by simp [bracketed], by simp [bracketed]⟩
    · -- the second bracket would open inside the first pair
      cases later with
      | nil => simp at hlater
      | cons d later =>
        obtain ⟨rfl, -⟩ := List.cons.inj hlater
        exact absurd (List.mem_append_right front (List.mem_cons_self ..)) hx.1

/-- Two pairs of brackets in a text, with no brackets inside, are the same, or one ends before the other
begins. -/
theorem bracketed_apart (hx : Unbracketed x) (hy : Unbracketed y)
    (h : front ++ bracketed x ++ rest = front' ++ bracketed y ++ rest') :
    (front = front' ∧ x = y ∧ rest = rest') ∨ front ++ bracketed x <+: front' ∨
      front' ++ bracketed y <+: front := by
  rw [List.append_assoc, List.append_assoc] at h
  rcases List.append_eq_append_iff.mp h with ⟨later, rfl, hlater⟩ | ⟨later, rfl, hlater⟩
  · rw [← List.append_assoc] at hlater
    rcases bracketed_append_cases hx hy hlater with ⟨rfl, hxy, hrest⟩ | ⟨between, rfl, -⟩
    · exact Or.inl ⟨by simp, hxy, hrest⟩
    · exact Or.inr (Or.inl ⟨between, by simp⟩)
  · rw [← List.append_assoc] at hlater
    rcases bracketed_append_cases hy hx hlater with ⟨rfl, hxy, hrest⟩ | ⟨between, rfl, -⟩
    · exact Or.inl ⟨by simp, hxy.symm, hrest.symm⟩
    · exact Or.inr (Or.inr ⟨between, by simp⟩)

/-! ### Citations of known keys -/

/-- A pair of brackets around `body`, with `rest` behind it, cites `keys`: it lists them, all of them are
known, and no link goes on behind it. -/
structure Cites (known keys : List (List Char)) (body rest : List Char) : Prop where
  lists : Lists keys body
  mem_known : ∀ k ∈ keys, k ∈ known
  not_link : rest.head? ≠ some '(' ∧ rest.head? ≠ some '['

theorem isBracket_eq_false (h : Unbracketed x) : ∀ c ∈ x, (!isBracket c) = true := by
  intro c hc
  have hne : c ≠ '[' ∧ c ≠ ']' := ⟨fun heq => h.1 (heq ▸ hc), fun heq => h.2 (heq ▸ hc)⟩
  simp [isBracket, hne]

theorem token?_eq_some_iff {cs : List Char} :
    token? cs = some (keys, rest) ↔ ∃ body, cs = body ++ ']' :: rest ∧ Lists keys body := by
  constructor
  · intro h
    unfold token? at h
    split at h
    · rename_i rest' hrest
      obtain ⟨keys', hkeys, heq⟩ := Option.map_eq_some_iff.mp h
      obtain ⟨rfl, rfl⟩ := Prod.mk.inj heq
      refine ⟨cs.takeWhile (!isBracket ·), ?_, keys?_eq_some_iff.mp hkeys⟩
      rw [← hrest, List.takeWhile_append_dropWhile]
    · cases h
  · rintro ⟨body, rfl, h⟩
    have hbody := isBracket_eq_false h.unbracketed
    have hdrop : (body ++ ']' :: rest).dropWhile (!isBracket ·) = ']' :: rest := by
      rw [List.dropWhile_append_of_pos hbody]
      rfl
    have htake : (body ++ ']' :: rest).takeWhile (!isBracket ·) = body := by
      rw [List.takeWhile_append_of_pos hbody]
      exact List.append_nil body
    rw [token?, hdrop, htake]
    simp [keys?_eq_some_iff.mpr h]

theorem known?_eq_some_iff {cs : List Char} :
    known? known cs = some (keys, rest) ↔
      ∃ body, '[' :: cs = bracketed body ++ rest ∧ Cites known keys body rest := by
  rw [known?, Option.filter_eq_some_iff, token?_eq_some_iff]
  simp only [Bool.and_eq_true, List.all_eq_true, List.contains_iff_mem, Bool.not_eq_true', opensTarget,
    Bool.or_eq_false_iff, decide_eq_false_iff_not, bracketed_append, List.cons.injEq, true_and]
  constructor
  · rintro ⟨⟨body, hcs, hlists⟩, hknown, hlink⟩
    exact ⟨body, hcs, hlists, hknown, hlink⟩
  · rintro ⟨body, hcs, hlists, hknown, hlink⟩
    exact ⟨⟨body, hcs, hlists⟩, hknown, hlink⟩

/-! ### Cutting a text -/

/-- A piece of a text: a character that stays, or a citation that is replaced. -/
inductive Piece where
  | kept (c : Char)
  | cited (keys : List (List Char)) (body : List Char)

namespace Piece

def source : Piece → List Char
  | kept c => [c]
  | cited _ body => bracketed body

def result : Piece → List Char
  | kept c => [c]
  | cited keys _ => "\\cite\x7b".toList ++ [','].intercalate keys ++ ['\x7d']

theorem source_ne_nil (p : Piece) : p.source ≠ [] := by
  cases p <;> exact List.cons_ne_nil _ _

end Piece

theorem flatMap_source_eq_nil_iff {ps : List Piece} : ps.flatMap Piece.source = [] ↔ ps = [] := by
  cases ps with
  | nil => exact iff_of_true rfl rfl
  | cons p ps => simp [Piece.source_ne_nil]

theorem flatMap_source_kept (cs : List Char) : (cs.map Piece.kept).flatMap Piece.source = cs := by
  rw [List.flatMap_map]
  exact List.flatMap_singleton' cs

theorem flatMap_result_kept (cs : List Char) : (cs.map Piece.kept).flatMap Piece.result = cs := by
  rw [List.flatMap_map]
  exact List.flatMap_singleton' cs

/-- The pieces make up the text, and those that are citations are the citations of the text, each in its
place. -/
structure Cuts (known : List (List Char)) (text : List Char) (ps : List Piece) : Prop where
  source_eq : ps.flatMap Piece.source = text
  cited_iff : ∀ {front keys body rest}, (text = front ++ bracketed body ++ rest ∧ Cites known keys body rest) ↔
    ∃ before behind, ps = before ++ .cited keys body :: behind ∧ before.flatMap Piece.source = front ∧
      behind.flatMap Piece.source = rest

namespace Cuts

variable {text : List Char} {p p' : Piece} {ps ps' : List Piece}

theorem nil : Cuts known [] [] where
  source_eq := rfl
  cited_iff := by simp [bracketed]

theorem kept {c : Char} (h : Cuts known text ps)
    (hc : ∀ keys body rest, c :: text = bracketed body ++ rest → ¬ Cites known keys body rest) :
    Cuts known (c :: text) (.kept c :: ps) where
  source_eq := by rw [List.flatMap_cons, h.source_eq]; rfl
  cited_iff {front keys body rest} := by
    constructor
    · rintro ⟨htext, hcites⟩
      cases front with
      | nil => exact absurd hcites (hc _ _ _ htext)
      | cons d front =>
        obtain ⟨rfl, htail⟩ := List.cons.inj htext
        obtain ⟨before, behind, rfl, hbefore, hbehind⟩ := h.cited_iff.mp ⟨htail, hcites⟩
        exact ⟨.kept c :: before, behind, rfl, congrArg (c :: ·) hbefore, hbehind⟩
    · rintro ⟨before, behind, hps, rfl, hbehind⟩
      cases before with
      | nil => cases (List.cons.inj hps).1
      | cons q before =>
        obtain ⟨rfl, rfl⟩ := List.cons.inj hps
        obtain ⟨htext, hcites⟩ := h.cited_iff.mpr ⟨before, behind, rfl, rfl, hbehind⟩
        exact ⟨congrArg (c :: ·) htext, hcites⟩

theorem cited {rest : List Char} (h : Cuts known rest ps) (hcites : Cites known keys body rest) :
    Cuts known (bracketed body ++ rest) (.cited keys body :: ps) where
  source_eq := by rw [List.flatMap_cons, h.source_eq]; rfl
  cited_iff {front keys' body' rest'} := by
    constructor
    · rintro ⟨htext, hcites'⟩
      rcases bracketed_append_cases hcites.lists.unbracketed hcites'.lists.unbracketed htext with
        ⟨rfl, rfl, rfl⟩ | ⟨between, rfl, hrest⟩
      · rw [hcites'.lists.unique hcites.lists]
        exact ⟨[], ps, rfl, rfl, h.source_eq⟩
      · obtain ⟨before, behind, rfl, rfl, hbehind⟩ := h.cited_iff.mp ⟨hrest, hcites'⟩
        exact ⟨.cited keys body :: before, behind, rfl, rfl, hbehind⟩
    · rintro ⟨before, behind, hps, rfl, hbehind⟩
      cases before with
      | nil =>
        obtain ⟨hp, rfl⟩ := List.cons.inj hps
        cases hp
        obtain rfl : rest = rest' := h.source_eq.symm.trans hbehind
        exact ⟨rfl, hcites⟩
      | cons q before =>
        obtain ⟨rfl, rfl⟩ := List.cons.inj hps
        obtain ⟨htext, hcites'⟩ := h.cited_iff.mpr ⟨before, behind, rfl, rfl, hbehind⟩
        refine ⟨?_, hcites'⟩
        rw [htext]
        simp [Piece.source]

/-- What is left of a text behind its first piece. -/
theorem tail (h : Cuts known text (p :: ps)) : Cuts known (ps.flatMap Piece.source) ps where
  source_eq := rfl
  cited_iff {front keys body rest} := by
    have htext : text = p.source ++ ps.flatMap Piece.source := h.source_eq.symm
    have hpiece := @cited_iff _ _ _ h (p.source ++ front) keys body rest
    rw [htext, List.append_assoc, List.append_assoc, List.append_cancel_left_eq, ← List.append_assoc] at hpiece
    rw [hpiece]
    constructor
    · rintro ⟨before, behind, hps, hbefore, hbehind⟩
      cases before with
      | nil => exact absurd (List.append_eq_nil_iff.mp hbefore.symm).1 p.source_ne_nil
      | cons q before =>
        obtain ⟨rfl, htail⟩ := List.cons.inj hps
        rw [List.flatMap_cons, List.append_cancel_left_eq] at hbefore
        exact ⟨before, behind, htail, hbefore, hbehind⟩
    · rintro ⟨before, behind, rfl, rfl, hbehind⟩
      exact ⟨p :: before, behind, rfl, rfl, hbehind⟩

/-- The first piece is a citation exactly if the text starts with one. -/
theorem head_eq_cited_iff (h : Cuts known text (p :: ps)) :
    p = .cited keys body ↔ ∃ rest, text = bracketed body ++ rest ∧ Cites known keys body rest := by
  constructor
  · rintro rfl
    exact ⟨_, h.cited_iff.mpr ⟨[], ps, rfl, rfl, rfl⟩⟩
  · rintro ⟨rest, hrest⟩
    obtain ⟨before, behind, hps, hbefore, -⟩ := (@cited_iff _ _ _ h [] keys body rest).mp hrest
    rw [flatMap_source_eq_nil_iff] at hbefore
    subst hbefore
    exact (List.cons.inj hps).1

theorem unique (h : Cuts known text ps) (h' : Cuts known text ps') : ps = ps' := by
  induction ps generalizing text ps' with
  | nil =>
    have htext := h'.source_eq.trans h.source_eq.symm
    exact (flatMap_source_eq_nil_iff.mp htext).symm
  | cons p ps ih =>
    cases ps' with
    | nil => exact flatMap_source_eq_nil_iff.mp (h.source_eq.trans h'.source_eq.symm)
    | cons p' ps' =>
      have htext : p.source ++ ps.flatMap Piece.source = p'.source ++ ps'.flatMap Piece.source :=
        h.source_eq.trans h'.source_eq.symm
      have hcited (keys : List (List Char)) (body : List Char) : p = .cited keys body ↔ p' = .cited keys body :=
        h.head_eq_cited_iff.trans h'.head_eq_cited_iff.symm
      obtain rfl : p = p' := by
        cases p with
        | cited keys body => exact ((hcited keys body).mp rfl).symm
        | kept c =>
          cases p' with
          | cited keys body => exact (hcited keys body).mpr rfl
          | kept c' => rw [(List.cons.inj htext).1]
      rw [ih h.tail (List.append_cancel_left htext ▸ h'.tail)]

end Cuts

/-- Every text can be cut into pieces, and what becomes of them is the text with its citations resolved. -/
theorem exists_cuts (known : List (List Char)) (text : List Char) :
    ∃ ps, Cuts known text ps ∧ resolveKeys known text = ps.flatMap Piece.result := by
  fun_induction resolveKeys known text with
  | case1 => exact ⟨[], .nil, rfl⟩
  | case2 cs keys rest hknown ih =>
    obtain ⟨ps, hps, hresult⟩ := ih
    obtain ⟨body, htext, hcites⟩ := known?_eq_some_iff.mp hknown
    rw [htext, hresult]
    exact ⟨.cited keys body :: ps, hps.cited hcites, rfl⟩
  | case3 cs hknown ih =>
    obtain ⟨ps, hps, hresult⟩ := ih
    refine ⟨.kept '[' :: ps, hps.kept fun keys body rest htext hcites => ?_, congrArg ('[' :: ·) hresult⟩
    rw [known?_eq_some_iff.mpr ⟨body, htext, hcites⟩] at hknown
    cases hknown
  | case4 c cs hc ih =>
    obtain ⟨ps, hps, hresult⟩ := ih
    refine ⟨.kept c :: ps, hps.kept fun keys body rest htext _ => ?_, congrArg (c :: ·) hresult⟩
    rw [bracketed_append] at htext
    exact hc (List.cons.inj htext).1

end Citation

def Bibliography.known (b : Bibliography) : List (List Char) := b.keys.map String.toList

namespace Citation

theorem exists_cuts_resolve (b : Bibliography) (text : List Char) :
    ∃ ps, Cuts b.known text ps ∧ b.resolve text = ps.flatMap Piece.result :=
  exists_cuts b.known text

theorem Cuts.resolve_eq {b : Bibliography} {text : List Char} {ps : List Piece} (h : Cuts b.known text ps) :
    b.resolve text = ps.flatMap Piece.result := by
  obtain ⟨ps', hps', hresult⟩ := exists_cuts_resolve b text
  rw [h.unique hps', hresult]

/-- Without known keys nothing is cited. -/
theorem resolve_of_no_keys (text : List Char) : Bibliography.resolve ⟨[]⟩ text = text := by
  show resolveKeys [] text = text
  fun_induction resolveKeys [] text with
  | case1 => rfl
  | case2 cs keys rest hknown _ =>
    obtain ⟨body, -, hcites⟩ := known?_eq_some_iff.mp hknown
    obtain ⟨k, hk⟩ := List.exists_mem_of_ne_nil _ hcites.lists.keys_ne_nil
    exact absurd (hcites.mem_known k hk) List.not_mem_nil
  | case3 cs _ ih => rw [ih]
  | case4 c cs _ ih => rw [ih]

/-- Each text can be cut in exactly one way into its citations of known keys and the characters that stay, and
to resolve it is to put the command with the same keys for each citation, all at once. Whether their keys are
known or not, two lists of keys in brackets do not overlap. -/
theorem resolve_replaces_citations (b : Bibliography) (text : List Char) :
    (∃ ps, (∀ ps', Cuts b.known text ps' ↔ ps' = ps) ∧ b.resolve text = ps.flatMap Piece.result) ∧
    ∀ front keys body rest front' keys' body' rest',
      text = front ++ bracketed body ++ rest → Lists keys body →
      text = front' ++ bracketed body' ++ rest' → Lists keys' body' →
        (front = front' ∧ keys = keys' ∧ body = body' ∧ rest = rest') ∨
          front ++ bracketed body <+: front' ∨ front' ++ bracketed body' <+: front := by
  constructor
  · obtain ⟨ps, hps, hresult⟩ := exists_cuts_resolve b text
    refine ⟨ps, fun ps' => ⟨fun hps' => hps'.unique hps, ?_⟩, hresult⟩
    rintro rfl
    exact hps
  · intro front keys body rest front' keys' body' rest' htext hlists htext' hlists'
    have hapart := bracketed_apart hlists.unbracketed hlists'.unbracketed (htext.symm.trans htext')
    refine hapart.imp_left ?_
    rintro ⟨hfront, rfl, hrest⟩
    exact ⟨hfront, hlists.unique hlists', rfl, hrest⟩

/-- Two keys in front of another pair of brackets, and one at the end. -/
def threeLists : List Char := "See [a , b][c] and [b].".toList

theorem resolve_replaces_citations_threeLists :
    threeLists = "See ".toList ++ bracketed "a , b".toList ++ "[c] and [b].".toList ∧
      Lists ["a".toList, "b".toList] "a , b".toList ∧
      threeLists = "See [a , b][c] and ".toList ++ bracketed "b".toList ++ ".".toList ∧ Lists ["b".toList] "b".toList ∧
      "See ".toList ++ bracketed "a , b".toList <+: "See [a , b][c] and ".toList ∧
      ∃ ps, (∀ ps', Cuts (Bibliography.known ⟨["a", "b"]⟩) threeLists ps' ↔ ps' = ps) ∧
        ps.flatMap Piece.result = "See [a , b][c] and \\cite\x7bb\x7d.".toList := by
  obtain ⟨⟨ps, hps, hresult⟩, hapart⟩ := resolve_replaces_citations ⟨["a", "b"]⟩ threeLists
  have hboth : Lists ["a".toList, "b".toList] "a , b".toList := keys?_eq_some_iff.mp (by decide)
  have hlast : Lists ["b".toList] "b".toList := keys?_eq_some_iff.mp (by decide)
  have hresolve : Bibliography.resolve ⟨["a", "b"]⟩ threeLists = "See [a , b][c] and \\cite\x7bb\x7d.".toList := by
    decide +kernel
  refine ⟨rfl, hboth, rfl, hlast, ?_, ps, hps, hresult.symm.trans hresolve⟩
  rcases hapart "See ".toList _ _ "[c] and [b].".toList "See [a , b][c] and ".toList _ _ ".".toList
      rfl hboth rfl hlast with h | h | h
  · exact absurd h.1 (by decide)
  · exact h
  · exact absurd h (by decide)

end Citation

end Compendium
