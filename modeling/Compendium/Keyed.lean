/-!
# Values by key

A list of values that each have a key, in the order in which the keys first came up. Finding a value
behind a change is settled by `find?_set`, and the keys by `keys_set`.
-/

namespace Compendium

abbrev Keyed (κ α : Type) := List (κ × α)

namespace Keyed

variable {κ α : Type} [DecidableEq κ]

def find? : Keyed κ α → κ → Option α
  | [], _ => none
  | (key, a) :: t, k => if key = k then some a else find? t k

/-- Gives a key a value, in the place of the one that it has. A new key comes last. -/
def set (k : κ) (a : α) : Keyed κ α → Keyed κ α
  | [] => [(k, a)]
  | (key, b) :: t => if key = k then (key, a) :: t else (key, b) :: set k a t

def keys (t : Keyed κ α) : List κ := t.map Prod.fst

theorem find?_set (t : Keyed κ α) (k : κ) (a : α) (k' : κ) :
    (t.set k a).find? k' = if k = k' then some a else t.find? k' := by
  induction t with
  | nil => simp [set, find?]
  | cons p t ih =>
    obtain ⟨key, b⟩ := p
    rw [set]
    split
    · rename_i hk
      simp only [find?, hk]
      split <;> rfl
    · rename_i hk
      simp only [find?, ih]
      split
      · rename_i hk'
        rw [if_neg fun h => hk (hk'.trans h.symm)]
      · rfl

theorem keys_set (t : Keyed κ α) (k : κ) (a : α) :
    (t.set k a).keys = if k ∈ t.keys then t.keys else t.keys ++ [k] := by
  induction t with
  | nil => simp [set, keys]
  | cons p t ih =>
    obtain ⟨key, b⟩ := p
    simp only [keys] at ih
    rw [set]
    split
    · rename_i hk
      simp [keys, hk]
    · rename_i hk
      have hk' : k ≠ key := fun h => hk h.symm
      simp only [keys, List.map_cons, ih, List.mem_cons, hk', false_or]
      by_cases h : k ∈ t.map Prod.fst <;> simp [h]

/-- A key has a value exactly if it is among the keys. -/
theorem isSome_find?_iff (t : Keyed κ α) (k : κ) : (t.find? k).isSome ↔ k ∈ t.keys := by
  induction t with
  | nil => simp [find?, keys]
  | cons p t ih =>
    obtain ⟨key, b⟩ := p
    simp only [keys] at ih
    simp only [find?, keys, List.map_cons, List.mem_cons, ← ih]
    split
    · rename_i hk
      simp [hk]
    · rename_i hk
      have hk' : k ≠ key := fun h => hk h.symm
      simp [hk']

end Keyed

end Compendium
