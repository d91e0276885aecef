import Mathlib.Data.List.Perm.Basic
import Compendium.Proofs.Json.Tokens

/-!
# What a JSON text says

A text that was taken apart can say the same value in several ways: a string may give its characters
by number, and the members of an object may stand in any order. `Source.Describes` leaves this open
and nothing else. A value is described by its own text (`describes_ofValue`), and by all that describe
it with its members in order (`Describes.of_sorted`).
-/

namespace Compendium.Json

namespace Source

mutual

/-- The text says the value. -/
inductive Describes : Source → Value → Prop where
  | null : Describes .null .null
  | bool (b : Bool) : Describes (.bool b) (.bool b)
  | number (n : Nat) : Describes (.number (.ofNat n)) (.number n)
  | string {q : Quoted} {s : String} (h : q.text = .ok s) : Describes (.string q) (.string s)
  | array {ss : List Source} {vs : List Value} (h : DescribesElements ss vs) :
    Describes (.array ss .closed) (.array vs)
  | object {members : List (Quoted × Source)} {ms ms' : List (String × Value)}
    (h : DescribesMembers members ms') (hperm : ms'.Perm ms) :
    Describes (.object members .closed none) (.object ms)

inductive DescribesElements : List Source → List Value → Prop where
  | nil : DescribesElements [] []
  | cons {s : Source} {v : Value} {ss : List Source} {vs : List Value} (h : Describes s v)
    (hs : DescribesElements ss vs) : DescribesElements (s :: ss) (v :: vs)

/-- The members say the names and values in the same order. -/
inductive DescribesMembers : List (Quoted × Source) → List (String × Value) → Prop where
  | nil : DescribesMembers [] []
  | cons {key : Quoted} {s : Source} {name : String} {v : Value} {members : List (Quoted × Source)}
    {ms : List (String × Value)} (hkey : key.text = .ok name) (h : Describes s v)
    (hs : DescribesMembers members ms) : DescribesMembers ((key, s) :: members) ((name, v) :: ms)

end

end Source

/-! ### The text of a value -/

namespace Source

mutual

theorem describes_ofValue : ∀ v : Value, (ofValue v).Describes v
  | .null => .null
  | .bool b => .bool b
  | .number n => .number n
  | .string s => .string (Quoted.text_map (fun _ => Or.inl rfl) s)
  | .array vs => .array (describesElements_ofElements vs)
  | .object ms => .object (describesMembers_ofMembers ms) (List.Perm.refl ms)

theorem describesElements_ofElements : ∀ vs : List Value, DescribesElements (ofElements vs) vs
  | [] => .nil
  | v :: vs => .cons (describes_ofValue v) (describesElements_ofElements vs)

theorem describesMembers_ofMembers : ∀ ms : List (String × Value), DescribesMembers (ofMembers ms) ms
  | [] => .nil
  | (k, v) :: ms =>
    .cons (Quoted.text_map (fun _ => Or.inl rfl) k) (describes_ofValue v) (describesMembers_ofMembers ms)

end

end Source

/-! ### The order of members -/

/-- What is a reordering of results comes from a reordering. -/
theorem exists_perm_of_perm_map {α β : Type} {f : α → β} {as : List α} {bs : List β}
    (h : bs.Perm (as.map f)) : ∃ as' : List α, as'.Perm as ∧ bs = as'.map f := by
  have hmap : List.Forall₂ (fun b a => b = f a) (as.map f) as :=
    List.forall₂_map_left_iff.mpr (List.forall₂_same.mpr fun _ _ => rfl)
  obtain ⟨as', has', hperm⟩ := List.perm_comp_forall₂ h hmap
  refine ⟨as', hperm, ?_⟩
  rw [← List.forall₂_eq_eq_eq]
  exact List.forall₂_map_right_iff.mpr has'

namespace Value

theorem insertMember_perm (m : String × Value) (ms : List (String × Value)) :
    (insertMember m ms).Perm (m :: ms) := by
  induction ms with
  | nil => exact List.Perm.refl _
  | cons m' ms ih =>
    rw [insertMember]
    split
    · exact List.Perm.refl _
    · exact (List.Perm.cons m' ih).trans (List.Perm.swap m m' ms)

theorem sortedMembers_perm (ms : List (String × Value)) :
    (sortedMembers ms).Perm (ms.map fun m => (m.1, m.2.sorted)) := by
  induction ms with
  | nil => exact List.Perm.refl _
  | cons m ms ih =>
    rw [sortedMembers]
    exact (insertMember_perm _ _).trans (List.Perm.cons _ ih)

end Value

namespace Source

theorem DescribesMembers.of_map {f : Value → Value} {members : List (Quoted × Source)}
    {ms : List (String × Value)} (h : DescribesMembers members (ms.map fun m => (m.1, f m.2)))
    (hf : ∀ m ∈ ms, ∀ s : Source, s.Describes (f m.2) → s.Describes m.2) : DescribesMembers members ms := by
  induction ms generalizing members with
  | nil => cases h; exact .nil
  | cons m ms ih =>
    obtain ⟨hm, hms⟩ := List.forall_mem_cons.mp hf
    cases h with
    | cons hkey hs hrest => exact .cons hkey (hm _ hs) (ih hrest hms)

mutual

/-- The order of the members does not matter to what describes a value. -/
theorem Describes.of_sorted : ∀ (v : Value) (s : Source), s.Describes v.sorted → s.Describes v
  | .null, _, h => h
  | .bool _, _, h => h
  | .number _, _, h => h
  | .string _, _, h => h
  | .array vs, s, h => by
    rw [Value.sorted] at h
    cases h with
    | array h => exact .array (DescribesElements.of_sorted vs _ h)
  | .object ms, s, h => by
    rw [Value.sorted] at h
    cases h with
    | object h hperm =>
      obtain ⟨ms', hperm', rfl⟩ := exists_perm_of_perm_map (hperm.trans (Value.sortedMembers_perm ms))
      refine .object (h.of_map fun m hm s hs => ?_) hperm'
      exact Describes.of_sorted_member ms m (hperm'.mem_iff.mp hm) s hs

theorem DescribesElements.of_sorted :
    ∀ (vs : List Value) (ss : List Source), DescribesElements ss (Value.sortedElements vs) → DescribesElements ss vs
  | [], _, h => h
  | v :: vs, ss, h => by
    rw [Value.sortedElements] at h
    cases h with
    | cons h hs => exact .cons (Describes.of_sorted v _ h) (DescribesElements.of_sorted vs _ hs)

theorem Describes.of_sorted_member :
    ∀ (ms : List (String × Value)), ∀ m ∈ ms, ∀ s : Source, s.Describes m.2.sorted → s.Describes m.2
  | [], m, hm, _, _ => absurd hm List.not_mem_nil
  | (k, v) :: ms, m, hm, s, h => by
    rcases List.mem_cons.mp hm with rfl | hm
    · exact Describes.of_sorted v s h
    · exact Describes.of_sorted_member ms m hm s h

end

end Source

end Compendium.Json
