import Compendium.Text.Basic

/-!
# Paths

A path is a text whose components are separated by slashes. It is kept as it is written, so two
paths can lead to the same place.
-/

namespace Compendium

structure Path where
  chars : List Char
deriving DecidableEq, Repr

namespace Path

def ofString (s : String) : Path := ⟨s.toList⟩

def text (p : Path) : String := String.ofList p.chars

def isAbsolute (p : Path) : Bool := p.chars.head? = some '/'

/-- The path behind another one. An absolute path stands alone. -/
def join (p q : Path) : Path :=
  if q.isAbsolute || p.chars.isEmpty then q
  else if p.chars.getLast? = some '/' then ⟨p.chars ++ q.chars⟩
  else ⟨p.chars ++ '/' :: q.chars⟩

/-- The components of a path, in order, without the empty ones. -/
def components (p : Path) : List (List Char) :=
  (Text.split '/' p.chars).filter (!·.isEmpty)

/-- The path with an extension behind its last component. Slashes at the end are left out; a path
without a component stays as it is, and so does one with an empty extension. -/
def addExtension (p : Path) (extension : List Char) : Path :=
  let stem := Text.dropEndWhile (· = '/') p.chars
  if stem.isEmpty then p
  else if extension.isEmpty then ⟨stem⟩
  else ⟨stem ++ '.' :: extension⟩

/-! ### Directories -/

/-- A piece between slashes that leads nowhere. -/
def isIdle (piece : List Char) : Bool := piece.isEmpty || piece = ['.']

/-- Pieces up to the last one that leads somewhere. -/
def trimIdle (pieces : List (List Char)) : List (List Char) :=
  (pieces.reverse.dropWhile isIdle).reverse

/-- The directory that a path lies in. The empty path and one of slashes alone lie in none. -/
def parent? (p : Path) : Option Path :=
  match Text.split '/' p.chars with
  | [] => none
  | start :: pieces =>
    let pieces := trimIdle pieces
    if pieces.isEmpty then
      if start.isEmpty then none else some ⟨[]⟩
    else
      let pieces := trimIdle pieces.dropLast
      if pieces.isEmpty && start.isEmpty then some ⟨['/']⟩
      else some ⟨Text.join ['/'] (start :: pieces)⟩

/-- The number of characters of pieces, with one slash behind each. -/
def weight : List (List Char) → Nat
  | [] => 0
  | piece :: pieces => piece.length + 1 + weight pieces

theorem weight_append (ps qs : List (List Char)) : weight (ps ++ qs) = weight ps + weight qs := by
  induction ps with
  | nil => exact (Nat.zero_add _).symm
  | cons p ps ih =>
    rw [List.cons_append, weight, weight, ih]
    exact (Nat.add_assoc ..).symm

theorem weight_split (cs : List Char) : weight (Text.split '/' cs) = cs.length + 1 := by
  induction cs with
  | nil => rfl
  | cons c cs ih =>
    rw [Text.split]
    split
    · simp only [weight, List.length_nil, List.length_cons] at ih ⊢
      omega
    · split
      · rename_i h
        rw [h] at ih
        simp [weight] at ih
      · rename_i h
        rw [h] at ih
        simp only [weight, List.length_cons] at ih ⊢
        omega

theorem length_join (start : List Char) (pieces : List (List Char)) :
    (Text.join ['/'] (start :: pieces)).length + 1 = weight (start :: pieces) := by
  induction pieces generalizing start with
  | nil => simp [Text.join, weight]
  | cons piece pieces ih =>
    have h := ih piece
    simp only [Text.join, weight, List.intersperse_cons_cons, List.flatten_cons, List.length_append,
      List.length_cons, List.length_nil] at h ⊢
    omega

theorem weight_le_of_sublist {ps qs : List (List Char)} (h : ps.Sublist qs) : weight ps ≤ weight qs := by
  induction h with
  | slnil => exact Nat.le_refl _
  | cons q _ ih => simp only [weight] at ih ⊢; omega
  | cons_cons q _ ih => simp only [weight] at ih ⊢; omega

theorem trimIdle_sublist (pieces : List (List Char)) : (trimIdle pieces).Sublist pieces := by
  have h := (List.dropWhile_sublist isIdle (l := pieces.reverse)).reverse
  rwa [List.reverse_reverse] at h

theorem weight_dropLast_lt {pieces : List (List Char)} (h : pieces ≠ []) :
    weight pieces.dropLast < weight pieces := by
  have hp := List.dropLast_concat_getLast h
  have hw : weight (pieces.dropLast ++ [pieces.getLast h]) =
      weight pieces.dropLast + ((pieces.getLast h).length + 1) := weight_append ..
  rw [hp] at hw
  omega

theorem two_le_weight_trimIdle {pieces : List (List Char)} (h : trimIdle pieces ≠ []) :
    2 ≤ weight (trimIdle pieces) := by
  unfold trimIdle at h ⊢
  have h' : pieces.reverse.dropWhile isIdle ≠ [] := fun he => h (by rw [he]; rfl)
  have hi := List.head_dropWhile_not isIdle h'
  generalize pieces.reverse.dropWhile isIdle = back at h' hi
  cases back with
  | nil => exact absurd rfl h'
  | cons piece back =>
    have hp : piece ≠ [] := fun he => by simp [isIdle, he] at hi
    have := List.length_pos_iff.2 hp
    simp only [List.reverse_cons, weight_append, weight]
    omega

theorem length_parent?_lt {p q : Path} (h : p.parent? = some q) : q.chars.length < p.chars.length := by
  unfold parent? at h
  have hw := weight_split p.chars
  split at h
  · simp at h
  · rename_i start pieces hs
    rw [hs] at hw
    have ht := weight_le_of_sublist (trimIdle_sublist pieces)
    have h2 : trimIdle pieces ≠ [] → 2 ≤ weight (trimIdle pieces) := two_le_weight_trimIdle
    have hc : ∀ ps, weight (start :: ps) = start.length + 1 + weight ps := fun ps => rfl
    rw [hc] at hw
    generalize trimIdle pieces = trimmed at h ht h2
    by_cases he : trimmed = []
    · subst he
      by_cases hn : start = []
      · simp [hn] at h
      · have := List.length_pos_iff.2 hn
        simp only [List.isEmpty_nil, if_true, List.isEmpty_iff, hn, if_false, Option.some.injEq] at h
        subst h
        simp only [List.length_nil]
        omega
    · have hl := weight_dropLast_lt he
      have hi := weight_le_of_sublist (trimIdle_sublist trimmed.dropLast)
      simp only [List.isEmpty_iff, he, if_false] at h
      split at h
      · rename_i hn
        simp only [Option.some.injEq] at h
        subst h
        simp only [Bool.and_eq_true, List.isEmpty_iff] at hn
        have := h2 he
        simp only [hn.2, List.length_nil] at hw
        simp only [List.length_cons, List.length_nil]
        omega
      · simp only [Option.some.injEq] at h
        subst h
        have hj := length_join start (trimIdle trimmed.dropLast)
        rw [hc] at hj
        simp only
        omega

end Path

end Compendium
