import Mathlib.Data.List.Nodup
import Compendium.Keyed

/-!
# Values by key, as a list

A list of values by key that has no key twice is the same as its keys with their values
(`eq_map_keys`). The value of a new key is put behind the others, and stays there when it is changed.
Of two changes to one key only the last one counts (`set_set`), and a change of a key does not matter
to the others (`set_comm`). So the same changes can be made again without an effect (`setAll_setAll`).
-/

namespace Compendium

namespace Keyed

variable {κ α β : Type} [DecidableEq κ] {t : Keyed κ α} {k k' : κ} {a : α}

theorem nodup_keys_set (h : t.keys.Nodup) : (t.set k a).keys.Nodup := by
  rw [keys_set]
  split
  · exact h
  · rename_i hk
    refine List.nodup_append.mpr ⟨h, List.nodup_singleton k, ?_⟩
    rintro x hx y hy rfl
    exact hk (List.mem_singleton.mp hy ▸ hx)

theorem find?_of_mem (hnd : t.keys.Nodup) (h : (k, a) ∈ t) : t.find? k = some a := by
  induction t with
  | nil => exact absurd h List.not_mem_nil
  | cons p t ih =>
    obtain ⟨key, b⟩ := p
    obtain ⟨hkey, hnd⟩ := List.nodup_cons.mp hnd
    rw [find?]
    rcases List.mem_cons.mp h with heq | h
    · cases heq; exact if_pos rfl
    · have hne : key ≠ k := by
        rintro rfl
        exact hkey (List.mem_map.mpr ⟨_, h, rfl⟩)
      rw [if_neg hne]
      exact ih hnd h

/-- Different keys and the value of each of them are all that there is. -/
theorem eq_map_keys (hnd : t.keys.Nodup) {f : κ → α} (hf : ∀ k ∈ t.keys, t.find? k = some (f k)) :
    t = t.keys.map fun k => (k, f k) := by
  rw [keys, List.map_map]
  refine (List.map_id t).symm.trans (List.map_congr_left ?_)
  rintro ⟨k, a⟩ h
  have hk := hf k (List.mem_map.mpr ⟨_, h, rfl⟩)
  rw [find?_of_mem hnd h, Option.some.injEq] at hk
  rw [hk]; rfl

theorem find?_eq_none (h : k ∉ t.keys) : t.find? k = none := by
  rw [← Option.not_isSome_iff_eq_none, isSome_find?_iff]
  exact h

theorem set_of_not_mem (h : k ∉ t.keys) (a : α) : t.set k a = t ++ [(k, a)] := by
  induction t with
  | nil => rfl
  | cons p t ih =>
    obtain ⟨key, b⟩ := p
    rw [keys, List.map_cons, List.mem_cons, not_or] at h
    rw [set, if_neg (Ne.symm h.1), ih h.2]
    rfl

theorem find?_concat (h : k ∉ t.keys) (a : α) : find? (t ++ [(k, a)]) k = some a := by
  rw [← set_of_not_mem h, find?_set, if_pos rfl]

theorem set_concat (h : k ∉ t.keys) (a b : α) : set k b (t ++ [(k, a)]) = t ++ [(k, b)] := by
  induction t with
  | nil => simp [set]
  | cons p t ih =>
    obtain ⟨key, c⟩ := p
    rw [keys, List.map_cons, List.mem_cons, not_or] at h
    rw [List.cons_append, set, if_neg (Ne.symm h.1), ih h.2]
    rfl

theorem set_set (t : Keyed κ α) (k : κ) (a b : α) : set k b (set k a t) = set k b t := by
  induction t with
  | nil => simp [set]
  | cons p t ih =>
    obtain ⟨key, c⟩ := p
    simp only [set]
    split
    · rename_i hk
      rw [set, if_pos hk]
    · rename_i hk
      rw [set, if_neg hk, ih]

theorem set_of_find? (h : t.find? k = some a) : t.set k a = t := by
  induction t with
  | nil => cases h
  | cons p t ih =>
    obtain ⟨key, b⟩ := p
    rw [find?] at h
    rw [set]
    split
    · rename_i hk
      rw [if_pos hk, Option.some.injEq] at h
      rw [h]
    · rename_i hk
      rw [if_neg hk] at h
      rw [ih h]

/-- Changes of two keys can be made in either order, if one of the keys is not new. -/
theorem set_comm (hne : k ≠ k') (hk : k ∈ t.keys) (a b : α) : set k a (set k' b t) = set k' b (set k a t) := by
  induction t with
  | nil => exact absurd hk List.not_mem_nil
  | cons p t ih =>
    obtain ⟨key, c⟩ := p
    rw [keys, List.map_cons, List.mem_cons] at hk
    by_cases h : key = k
    · subst h
      simp [set, hne]
    · by_cases h' : key = k'
      · subst h'
        simp [set, h]
      · simp only [set, h, h', if_false]
        rw [ih (hk.resolve_left (Ne.symm h))]

/-! ### Many changes -/

/-- Gives every key in `ws` its value, one after the other. -/
def setAll (t : Keyed κ α) (ws : Keyed κ α) : Keyed κ α := ws.foldl (fun t w => t.set w.1 w.2) t

theorem find?_append (t u : Keyed κ α) (k : κ) : find? (t ++ u) k = (t.find? k).or (u.find? k) := by
  induction t with
  | nil => rfl
  | cons p t ih =>
    rw [List.cons_append, find?, find?, ih]
    split <;> rfl

theorem mem_of_find? (h : t.find? k = some a) : (k, a) ∈ t := by
  induction t with
  | nil => cases h
  | cons p t ih =>
    rw [find?] at h
    split at h
    · rename_i hk
      cases h
      subst hk
      exact List.mem_cons_self ..
    · exact List.mem_cons_of_mem _ (ih h)

/-- The last value that a key is given is the one that it has. -/
theorem find?_setAll (t ws : Keyed κ α) (k : κ) :
    (t.setAll ws).find? k = (find? ws.reverse k).or (t.find? k) := by
  induction ws generalizing t with
  | nil => rfl
  | cons w ws ih =>
    rw [setAll, List.foldl_cons]
    refine (ih _).trans ?_
    rw [List.reverse_cons, find?_append, Option.or_assoc, find?_set, find?, find?]
    split <;> rfl

theorem isSome_find?_reverse_iff {ws : Keyed κ α} : (find? ws.reverse k).isSome ↔ k ∈ ws.keys := by
  rw [isSome_find?_iff, keys, List.map_reverse, List.mem_reverse, keys]

/-- A change does not count if the key is given another value later. -/
theorem setAll_set {ws : Keyed κ α} (hk : k ∈ t.keys) (hws : k ∈ ws.keys) (a : α) :
    (t.set k a).setAll ws = t.setAll ws := by
  induction ws generalizing t with
  | nil => exact absurd hws List.not_mem_nil
  | cons w ws ih =>
    rw [setAll, List.foldl_cons, setAll, List.foldl_cons]
    by_cases hw : w.1 = k
    · rw [hw, set_set]
    · rw [keys, List.map_cons, List.mem_cons] at hws
      have hkeys : k ∈ (t.set w.1 w.2).keys := by
        rw [keys_set]
        split
        exacts [hk, List.mem_append_left _ hk]
      rw [← set_comm (Ne.symm hw) hk]
      exact ih hkeys (hws.resolve_left (Ne.symm hw))

/-- Changes after which every key has the value that it had before are none. -/
theorem setAll_eq_self {ws : Keyed κ α} (h : ∀ k ∈ ws.keys, find? ws.reverse k = t.find? k) :
    t.setAll ws = t := by
  induction ws with
  | nil => rfl
  | cons w ws ih =>
    rw [setAll, List.foldl_cons]
    have hlast (k : κ) := find?_append ws.reverse [w] k
    rw [← List.reverse_cons] at hlast
    -- the first change is made again later, or the key has this value
    have hskip : (t.set w.1 w.2).setAll ws = t.setAll ws := by
      have hw := h w.1 (List.mem_cons_self ..)
      by_cases hws : w.1 ∈ keys ws
      · refine setAll_set ?_ hws w.2
        rw [← isSome_find?_iff, ← hw, isSome_find?_reverse_iff]
        exact List.mem_cons_self ..
      · have hnone : find? ws.reverse w.1 = none := by
          rw [← Option.not_isSome_iff_eq_none, isSome_find?_reverse_iff]
          exact hws
        rw [hlast, hnone, find?, if_pos rfl] at hw
        rw [set_of_find? hw.symm]
    refine hskip.trans (ih fun k hk => ?_)
    rw [← h k (List.mem_cons_of_mem _ hk), hlast]
    obtain ⟨a, ha⟩ := Option.isSome_iff_exists.mp (isSome_find?_reverse_iff.mpr hk)
    rw [ha, Option.some_or]

/-- The same changes once more change nothing. -/
theorem setAll_setAll (t ws : Keyed κ α) : (t.setAll ws).setAll ws = t.setAll ws := by
  refine setAll_eq_self fun k hk => ?_
  obtain ⟨a, ha⟩ := Option.isSome_iff_exists.mp (isSome_find?_reverse_iff.mpr hk)
  rw [find?_setAll, ha, Option.some_or]

end Keyed

end Compendium
