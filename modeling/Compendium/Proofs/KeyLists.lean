import Mathlib.Data.List.Basic
import Compendium.Citation
import Compendium.Proofs.Paths

/-!
# Lists of keys

The keys of a citation stand between commas, with white space around the commas but not around the whole
list (`Citation.Lists`). This is a grammar. To cut a text at its commas and to trim the pieces gives the keys of
exactly the texts that follow it (`Citation.keys?_eq_some_iff`).
-/

namespace Compendium

namespace Text

variable {p : Char → Bool} {cs front back : List Char}

theorem dropWhile_of_forall (h : ∀ c ∈ cs, p c = false) : cs.dropWhile p = cs := by
  cases cs with
  | nil => rfl
  | cons c cs => exact List.dropWhile_cons_of_neg (by simp [h c (List.mem_cons_self ..)])

theorem trim_append (hfront : ∀ c ∈ front, p c = true) (hcs : ∀ c ∈ cs, p c = false)
    (hback : ∀ c ∈ back, p c = true) : trim p (front ++ cs ++ back) = cs := by
  have hend : dropEndWhile p (cs ++ back) = cs := by
    rw [dropEndWhile, List.reverse_append, List.dropWhile_append_of_pos (by simpa using hback),
      dropWhile_of_forall (by simpa using hcs), List.reverse_reverse]
  rw [trim, List.append_assoc, List.dropWhile_append_of_pos hfront]
  cases cs with
  | nil => simp [List.dropWhile_eq_nil_iff.mpr hback, dropEndWhile]
  | cons c cs =>
    rw [List.cons_append, List.dropWhile_cons_of_neg (by simp [hcs c (List.mem_cons_self ..)])]
    exact hend

theorem exists_eq_trim (p : Char → Bool) (cs : List Char) :
    ∃ front back, (∀ c ∈ front, p c = true) ∧ (∀ c ∈ back, p c = true) ∧ cs = front ++ trim p cs ++ back := by
  refine ⟨cs.takeWhile p, (cs.dropWhile p).rtakeWhile p, fun c hc => List.mem_takeWhile_imp hc,
    fun c hc => List.mem_rtakeWhile_imp hc, ?_⟩
  rw [trim, dropEndWhile_eq, List.append_assoc, List.rdropWhile_append_rtakeWhile,
    List.takeWhile_append_dropWhile]

end Text

namespace Citation

/-! ### Lists of keys -/

/-- A text that is not empty and has no bracket, no comma and no white space in it. -/
def IsKey (k : List Char) : Prop :=
  k ≠ [] ∧ ∀ c ∈ k, c ≠ '[' ∧ c ≠ ']' ∧ c ≠ ',' ∧ Text.isBlank c = false

/-- White space or nothing. -/
def IsGap (cs : List Char) : Prop := ∀ c ∈ cs, Text.isBlank c = true

/-- Keys as a citation lists them: with one comma between any two, and white space around the comma at
will. -/
inductive Lists : (keys : List (List Char)) → List Char → Prop
  | one {k : List Char} (hk : IsKey k) : Lists [k] k
  | cons {k gap gap' body : List Char} {keys : List (List Char)} (hk : IsKey k) (hgap : IsGap gap)
      (hgap' : IsGap gap') (h : Lists keys body) : Lists (k :: keys) (k ++ gap ++ ',' :: (gap' ++ body))

/-- A text without brackets. -/
def Unbracketed (cs : List Char) : Prop := '[' ∉ cs ∧ ']' ∉ cs

instance (cs : List Char) : Decidable (Unbracketed cs) := inferInstanceAs (Decidable (_ ∧ _))

variable {k x y gap body front back : List Char} {keys keys' : List (List Char)}

theorem isKey_iff : isKey k = true ↔ IsKey k := by
  simp [isKey, isKeyChar, IsKey, and_assoc]

theorem IsKey.not_blank (hk : IsKey k) : ∀ c ∈ k, Text.isBlank c = false := fun c hc => (hk.2 c hc).2.2.2

theorem IsKey.unbracketed (hk : IsKey k) : Unbracketed k :=
  ⟨fun h => (hk.2 _ h).1 rfl, fun h => (hk.2 _ h).2.1 rfl⟩

theorem IsKey.comma_not_mem (hk : IsKey k) : ',' ∉ k := fun h => (hk.2 _ h).2.2.1 rfl

theorem IsGap.unbracketed (h : IsGap gap) : Unbracketed gap :=
  ⟨fun hmem => absurd (h _ hmem) (by decide), fun hmem => absurd (h _ hmem) (by decide)⟩

theorem IsGap.comma_not_mem (h : IsGap gap) : ',' ∉ gap := fun hmem => absurd (h _ hmem) (by decide)

theorem Unbracketed.append (hx : Unbracketed x) (hy : Unbracketed y) : Unbracketed (x ++ y) :=
  ⟨by simp [hx.1, hy.1], by simp [hx.2, hy.2]⟩

namespace Lists

theorem isKey (h : Lists keys body) : ∀ k ∈ keys, IsKey k := by
  induction h with
  | one hk => simpa using hk
  | cons hk _ _ _ ih => exact List.forall_mem_cons.mpr ⟨hk, ih⟩

theorem unbracketed (h : Lists keys body) : Unbracketed body := by
  induction h with
  | one hk => exact hk.unbracketed
  | cons hk hgap hgap' _ ih =>
    have hcomma : Unbracketed [','] := by decide
    exact (hk.unbracketed.append hgap.unbracketed).append (hcomma.append (hgap'.unbracketed.append ih))

theorem keys_ne_nil (h : Lists keys body) : keys ≠ [] := by
  cases h <;> exact List.cons_ne_nil _ _

theorem ne_nil (h : Lists keys body) : body ≠ [] := by
  cases h with
  | one hk => exact hk.1
  | cons => simp

/-- A list of keys starts with a key, so with no white space. -/
theorem head?_not_blank (h : Lists keys body) : body.head?.any Text.isBlank = false := by
  have hstart (tail : List Char) {k : List Char} (hk : IsKey k) : (k ++ tail).head?.any Text.isBlank = false := by
    obtain ⟨c, cs, rfl⟩ := List.exists_cons_of_ne_nil hk.1
    exact hk.not_blank c (List.mem_cons_self ..)
  cases h with
  | one hk => simpa using hstart [] hk
  | cons hk =>
    rw [List.append_assoc]
    exact hstart _ hk

theorem getLast?_not_blank (h : Lists keys body) : body.getLast?.any Text.isBlank = false := by
  induction h with
  | one hk =>
    rw [List.getLast?_eq_some_getLast hk.1]
    exact hk.not_blank _ (List.getLast_mem _)
  | @cons _ _ _ body _ _ _ _ h ih =>
    rwa [List.getLast?_append_of_ne_nil _ (List.cons_ne_nil _ _),
      List.getLast?_cons_of_ne_nil (by simp [h.ne_nil]), List.getLast?_append_of_ne_nil _ h.ne_nil]

/-- The pieces between the commas are the keys, up to white space. -/
theorem map_trim_split (h : Lists keys body) (hfront : IsGap front) (hback : IsGap back) :
    (Text.split ',' (front ++ body ++ back)).map (Text.trim Text.isBlank) = keys := by
  induction h generalizing front with
  | one hk =>
    rw [Text.split_of_not_mem (by simp [hfront.comma_not_mem, hk.comma_not_mem, hback.comma_not_mem]),
      List.map_singleton, Text.trim_append hfront hk.not_blank hback]
  | @cons k gap gap' body keys hk hgap hgap' _ ih =>
    have hcomma : front ++ (k ++ gap ++ ',' :: (gap' ++ body)) ++ back =
        front ++ k ++ gap ++ ',' :: (gap' ++ body ++ back) := by simp
    rw [hcomma, Text.split_append_sep, List.map_append, ih hgap',
      Text.split_of_not_mem (by simp [hfront.comma_not_mem, hk.comma_not_mem, hgap.comma_not_mem]),
      List.map_singleton, Text.trim_append hfront hk.not_blank hgap, List.singleton_append]

end Lists

/-- Where the pieces between the commas are keys, up to white space, the text lists them, with white space
before and after it. -/
theorem exists_lists (h : (Text.split ',' body).map (Text.trim Text.isBlank) = keys)
    (hkeys : ∀ k ∈ keys, IsKey k) :
    ∃ front inner back, IsGap front ∧ IsGap back ∧ Lists keys inner ∧ body = front ++ inner ++ back := by
  induction hn : body.length using Nat.strong_induction_on generalizing body keys with
  | _ n ih =>
    by_cases hcomma : ',' ∈ body
    · obtain ⟨first, others, rfl, hfirst⟩ := List.eq_append_cons_of_mem hcomma
      rw [Text.split_append_sep, Text.split_of_not_mem hfirst, List.singleton_append, List.map_cons] at h
      subst h
      obtain ⟨hk, hothers⟩ := List.forall_mem_cons.mp hkeys
      obtain ⟨front, gap, hfront, hgap, htrim⟩ := Text.exists_eq_trim Text.isBlank first
      have hlt : others.length < n := by
        rw [← hn, List.length_append, List.length_cons]
        omega
      obtain ⟨gap', inner, back, hgap', hback, hinner, rfl⟩ := ih _ hlt rfl hothers rfl
      refine ⟨front, _, back, hfront, hback, .cons hk hgap hgap' hinner, ?_⟩
      conv_lhs => rw [htrim]
      simp
    · rw [Text.split_of_not_mem hcomma, List.map_singleton] at h
      subst h
      obtain ⟨front, back, hfront, hback, htrim⟩ := Text.exists_eq_trim Text.isBlank body
      exact ⟨front, _, back, hfront, hback, .one (hkeys _ (List.mem_singleton_self _)), htrim⟩

theorem keys?_eq_some_iff : keys? body = some keys ↔ Lists keys body := by
  unfold keys?
  dsimp only
  constructor
  · intro h
    split at h
    · rename_i hcond
      simp only [Bool.and_eq_true, Bool.not_eq_true', List.all_eq_true, isKey_iff] at hcond
      obtain ⟨⟨hkeys, hhead⟩, hlast⟩ := hcond
      have heq := Option.some.inj h
      rw [heq] at hkeys
      obtain ⟨front, inner, back, hfront, hback, hlists, rfl⟩ := exists_lists heq hkeys
      -- what is around the list is white space, and the text neither starts nor ends with any
      obtain rfl : front = [] := by
        cases front with
        | nil => rfl
        | cons c front => simp [hfront c] at hhead
      obtain rfl : back = [] := by
        cases back using List.reverseRecOn with
        | nil => rfl
        | append_singleton back c => simp [← List.append_assoc, hback c] at hlast
      simpa using hlists
    · cases h
  · intro h
    have hgap : IsGap [] := by simp [IsGap]
    have hmap := h.map_trim_split hgap hgap
    rw [List.nil_append, List.append_nil] at hmap
    rw [hmap, if_pos]
    simpa [isKey_iff, h.head?_not_blank, h.getLast?_not_blank] using h.isKey

theorem Lists.unique (h : Lists keys body) (h' : Lists keys' body) : keys = keys' :=
  Option.some.inj ((keys?_eq_some_iff.mpr h).symm.trans (keys?_eq_some_iff.mpr h'))

end Citation

end Compendium
