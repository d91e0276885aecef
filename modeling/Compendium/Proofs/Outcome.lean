import Mathlib.Data.List.Forall2

/-!
# Outcomes of steps

Steps that can fail, one after the other, fail with the first error that comes up.
-/

namespace Compendium

variable {α β ε : Type} {e : ε}

theorem ok_bind (a : α) (f : α → Except ε β) : Except.ok a >>= f = f a := rfl

theorem error_bind (e : ε) (f : α → Except ε β) : Except.error e >>= f = .error e := rfl

theorem bind_eq_error_iff {x : Except ε α} {f : α → Except ε β} :
    x >>= f = .error e ↔ x = .error e ∨ ∃ a, x = .ok a ∧ f a = .error e := by
  cases x with
  | error e' => simp [error_bind]
  | ok a => simp [ok_bind]

theorem bind_eq_ok_iff {x : Except ε α} {f : α → Except ε β} {b : β} :
    x >>= f = .ok b ↔ ∃ a, x = .ok a ∧ f a = .ok b := by
  cases x with
  | error e => exact ⟨nofun, nofun⟩
  | ok a => simp [ok_bind]

theorem bind_pure_of_eq_ok {x : Except ε α} {a : α} (h : x = .ok a) (f : α → β) :
    (x >>= fun a => pure (f a)) = .ok (f a) := by
  rw [h]
  rfl

theorem bind_pure_eq_error_iff {x : Except ε α} {f : α → β} :
    (x >>= fun a => pure (f a)) = Except.error e ↔ x = .error e := by
  rw [bind_eq_error_iff]
  refine or_iff_left ?_
  rintro ⟨a, -, h⟩
  cases h

/-- Where there is only one error, the order of two steps does not matter for it. -/
theorem bind_bind_pure_eq_error_iff [Subsingleton ε] {γ : Type} {x : Except ε α} {y : Except ε β}
    {g : α → β → γ} :
    (x >>= fun a => y >>= fun b => pure (g a b)) = Except.error e ↔ x = .error e ∨ y = .error e := by
  rw [bind_eq_error_iff]
  simp only [bind_pure_eq_error_iff]
  cases x with
  | error e' => simp [Subsingleton.elim e' e]
  | ok a => simp

section mapM

variable {f : α → Except ε β} {as : List α}

theorem mapM_cons_eq_error_iff {a : α} :
    (a :: as).mapM f = .error e ↔ f a = .error e ∨ (∃ b, f a = .ok b) ∧ as.mapM f = .error e := by
  rw [List.mapM_cons, bind_eq_error_iff]
  refine or_congr_right ⟨?_, ?_⟩
  · rintro ⟨b, hb, hrest⟩
    exact ⟨⟨b, hb⟩, bind_pure_eq_error_iff.mp hrest⟩
  · rintro ⟨⟨b, hb⟩, hrest⟩
    exact ⟨b, hb, bind_pure_eq_error_iff.mpr hrest⟩

/-- A list of steps fails at the first one that fails. -/
theorem mapM_eq_error_iff :
    as.mapM f = .error e ↔
      ∃ before a after, as = before ++ a :: after ∧ (∀ b ∈ before, ∃ c, f b = .ok c) ∧ f a = .error e := by
  induction as with
  | nil =>
    constructor
    · intro h
      cases h
    · rintro ⟨before, a, after, heq, -, -⟩
      simp at heq
  | cons a as ih =>
    rw [mapM_cons_eq_error_iff, ih]
    constructor
    · rintro (ha | ⟨ha, before, b, after, rfl, hbefore, hb⟩)
      · exact ⟨[], a, as, rfl, by simp, ha⟩
      · exact ⟨a :: before, b, after, rfl, by simpa [ha] using hbefore, hb⟩
    · rintro ⟨before, b, after, heq, hbefore, hb⟩
      cases before with
      | nil =>
        obtain ⟨rfl, rfl⟩ := List.cons.inj heq
        exact Or.inl hb
      | cons c before =>
        obtain ⟨rfl, rfl⟩ := List.cons.inj heq
        obtain ⟨hc, hbefore⟩ := List.forall_mem_cons.mp hbefore
        exact Or.inr ⟨hc, before, b, after, rfl, hbefore, hb⟩

theorem exists_mapM_eq_error_iff :
    (∃ e, as.mapM f = .error e) ↔ ∃ a ∈ as, ∃ e, f a = .error e := by
  induction as with
  | nil => simp [pure, Except.pure]
  | cons a as ih =>
    simp only [mapM_cons_eq_error_iff, exists_or, exists_and_left, ih, List.mem_cons, or_and_right,
      exists_eq_left]
    cases f a with
    | error e => simp
    | ok b => simp

/-- Steps that cannot fail do not matter for the error. -/
theorem mapM_filter_eq_error_iff {p : α → Bool} (h : ∀ a, p a = false → ∃ b, f a = .ok b) :
    (as.filter p).mapM f = .error e ↔ as.mapM f = .error e := by
  induction as with
  | nil => exact Iff.rfl
  | cons a as ih =>
    rw [mapM_cons_eq_error_iff]
    cases hp : p a with
    | true => rw [List.filter_cons_of_pos hp, mapM_cons_eq_error_iff, ih]
    | false =>
      obtain ⟨b, hb⟩ := h a hp
      rw [List.filter_cons_of_neg (by simp [hp]), ih, hb]
      simp

theorem mapM_eq_ok_iff {bs : List β} :
    as.mapM f = .ok bs ↔ List.Forall₂ (fun a b => f a = .ok b) as bs := by
  induction as generalizing bs with
  | nil => cases bs <;> simp [pure, Except.pure]
  | cons a as ih =>
    rw [List.mapM_cons, bind_eq_ok_iff, List.forall₂_cons_left_iff]
    constructor
    · rintro ⟨b, hb, h⟩
      obtain ⟨bs', hbs', h⟩ := bind_eq_ok_iff.mp h
      cases h
      exact ⟨b, bs', hb, ih.mp hbs', rfl⟩
    · rintro ⟨b, bs', hb, hbs', rfl⟩
      exact ⟨b, hb, bind_eq_ok_iff.mpr ⟨bs', ih.mpr hbs', rfl⟩⟩

/-- Steps whose results are changed afterwards, instead of the list of the results. -/
theorem mapM_map {γ : Type} (f : α → Except ε β) (g : β → γ) (as : List α) :
    as.mapM (fun a => (f a).map g) = (as.mapM f).map (List.map g) := by
  induction as with
  | nil => rfl
  | cons a as ih =>
    rw [List.mapM_cons, List.mapM_cons, ih]
    cases f a with
    | error e => rfl
    | ok b =>
      cases as.mapM f with
      | error e => rfl
      | ok bs => rfl

end mapM

end Compendium
