import Compendium.Proofs.Registry

/-!
# A registry and its history

Registering and importing change different sides of a registry, so a run of such steps comes to the
same as all imports in their order and then all registrations in theirs (`ofHistory_eq`). What the
registry answers can then be read off the history: whoever registered a name last, and else the unit
that was first imported among those with a node of the name.
-/

namespace Compendium
open Node ImportedUnit

/-- What changes a registry. -/
inductive Registry.Event where
  | register (n : Node)
  | importUnit (i : ImportedUnit)
deriving DecidableEq, Repr

namespace Registry

def apply (r : Registry) : Event → Registry
  | .register n => r.register n
  | .importUnit i => r.importUnit i.unit i.nodes

def ofHistory (h : List Event) : Registry := h.foldl apply empty

def registered (h : List Event) : List Node :=
  h.filterMap fun
    | .register n => some n
    | .importUnit _ => none

def imports (h : List Event) : List ImportedUnit :=
  h.filterMap fun
    | .register _ => none
    | .importUnit i => some i

variable {h h' : List Event} {name unit : Name} {n : Node}

theorem importUnit_foldl_register (nodes : List Node) (r : Registry) (i : ImportedUnit) :
    (nodes.foldl register r).importUnit i.unit i.nodes =
      nodes.foldl register (r.importUnit i.unit i.nodes) := by
  induction nodes generalizing r with
  | nil => rfl
  | cons n nodes ih => exact ih (r.register n)

/-- Imports and registrations do not get in each other's way. -/
theorem ofHistory_eq (h : List Event) :
    ofHistory h = (registered h).foldl register (Session.importAll (imports h)) := by
  induction h using List.reverseRecOn with
  | nil => rfl
  | append_singleton h e ih =>
    have hstep : ofHistory (h ++ [e]) = (ofHistory h).apply e := by simp [ofHistory]
    rw [hstep, ih]
    cases e with
    | register n => simp [registered, imports, apply]
    | importUnit i =>
      have hregistered : registered (h ++ [.importUnit i]) = registered h := by simp [registered]
      have himports : imports (h ++ [.importUnit i]) = imports h ++ [i] := by simp [imports]
      rw [hregistered, himports, Session.importAll_concat]
      exact importUnit_foldl_register _ _ i

theorem lookup_ofHistory (h : List Event) (name : Name) :
    (ofHistory h).lookup name =
      (lastNamed (registered h) name).or (ImportedUnit.lookup (imports h) name) := by
  rw [ofHistory_eq, lookup_foldl_register, Session.lookup_importAll]

theorem lookupIn_ofHistory (h : List Event) (unit name : Name) :
    (ofHistory h).lookupIn unit name = lastNamed (nodesOf (imports h) unit) name := by
  rw [ofHistory_eq, lookupIn_foldl_register, Session.lookupIn_importAll]

theorem size_ofHistory (h : List Event) :
    (ofHistory h).size = (Name.distinct ((registered h).map Node.name)).length := by
  have hown : (ofHistory h).own = NodeTable.insertAll (registered h) [] := by
    rw [ofHistory_eq, own_foldl_register, Session.own_importAll]
  rw [size, hown, ← NodeTable.names_insertAll, NodeTable.names, List.length_map]

theorem name_of_lookup_ofHistory (hn : (ofHistory h).lookup name = some n) : n.name = name := by
  rw [lookup_ofHistory, Option.or_eq_some_iff] at hn
  rcases hn with hn | ⟨-, hn⟩
  · exact (mem_of_lastNamed hn).2
  · obtain ⟨unit, -, hn⟩ := List.exists_of_findSome?_eq_some hn
    exact (mem_of_lastNamed hn).2

theorem name_of_lookupIn_ofHistory (hn : (ofHistory h).lookupIn unit name = some n) : n.name = name := by
  rw [lookupIn_ofHistory] at hn
  exact (mem_of_lastNamed hn).2

/-- A name means a node if a node of this name was registered or imported, at whatever time. -/
theorem contains_ofHistory :
    (ofHistory h).contains name = true ↔
      (∃ n ∈ registered h, n.name = name) ∨ ∃ i ∈ imports h, ∃ n ∈ i.nodes, n.name = name := by
  rw [contains, lookup_ofHistory, Option.isSome_or, Bool.or_eq_true, isSome_lastNamed, isSome_lookup]

theorem contains_append (hc : (ofHistory h).contains name = true) (h' : List Event) :
    (ofHistory (h ++ h')).contains name = true := by
  rw [contains_ofHistory] at hc ⊢
  have hregistered : registered (h ++ h') = registered h ++ registered h' := by simp [registered]
  have himports : imports (h ++ h') = imports h ++ imports h' := by simp [imports]
  rw [hregistered, himports]
  rcases hc with ⟨n, hn, hname⟩ | ⟨i, hi, hn⟩
  · exact Or.inl ⟨n, List.mem_append_left _ hn, hname⟩
  · exact Or.inr ⟨i, List.mem_append_left _ hi, hn⟩

/-- A registry answers from its history. A name means the last node that was registered under it; if
there is none, the last node of the name in the earliest unit that was given one; a unit has the last
node of each name that it was given, whatever was registered. Nodes are only found under their names,
the size counts the different names that were registered, and a name that means something goes on to
do so. Two histories with the same registrations and the same imports, each in their order, make the
same registry. -/
theorem ofHistory_answers (h : List Event) :
    (∀ name, (ofHistory h).lookup name =
      (lastNamed (registered h) name).or
        ((units (imports h)).findSome? fun unit => lastNamed (nodesOf (imports h) unit) name)) ∧
    (∀ unit name, (ofHistory h).lookupIn unit name = lastNamed (nodesOf (imports h) unit) name) ∧
    (∀ name n, (ofHistory h).lookup name = some n → n.name = name) ∧
    (∀ unit name n, (ofHistory h).lookupIn unit name = some n → n.name = name) ∧
    (ofHistory h).size = (Name.distinct ((registered h).map Node.name)).length ∧
    (∀ name h', (ofHistory h).contains name = true → (ofHistory (h ++ h')).contains name = true) ∧
    (∀ h', registered h = registered h' → imports h = imports h' → ofHistory h = ofHistory h') := by
  refine ⟨lookup_ofHistory h, lookupIn_ofHistory h, fun _ _ => name_of_lookup_ofHistory,
    fun _ _ _ => name_of_lookupIn_ofHistory, size_ofHistory h, fun _ h' hc => contains_append hc h', ?_⟩
  intro h' hregistered himports
  rw [ofHistory_eq, ofHistory_eq, hregistered, himports]

/-- A node that is told from others of its name by its text. -/
def sample (name text : String) : Node := .ofStatement ⟨name⟩ ⟨false, text, [], "definition"⟩

/-- Two units in turns, with a registration in between. The unit that came first has no node of the
names until it comes up again. -/
def turns : List Event := [
  .importUnit ⟨⟨"U"⟩, []⟩, .importUnit ⟨⟨"V"⟩, [sample "a" "1"]⟩, .register (sample "b" "2"),
  .importUnit ⟨⟨"U"⟩, [sample "a" "3", sample "b" "4", sample "a" "5"]⟩]

def turnsApart : List Event :=
  (imports turns).map .importUnit ++ (registered turns).map .register

theorem ofHistory_answers_turns :
    turns ≠ turnsApart ∧ registered turns = registered turnsApart ∧ imports turns = imports turnsApart ∧
      ofHistory turns = ofHistory turnsApart ∧
      (ofHistory turns).lookup ⟨"a"⟩ = some (sample "a" "5") ∧
      (ofHistory turns).lookup ⟨"b"⟩ = some (sample "b" "2") ∧
      (ofHistory turns).lookupIn ⟨"U"⟩ ⟨"b"⟩ = some (sample "b" "4") := by
  obtain ⟨hlookup, hlookupIn, -, -, -, -, hsame⟩ := ofHistory_answers turns
  have hregistered : registered turns = registered turnsApart := by decide
  have himports : imports turns = imports turnsApart := by decide
  refine ⟨by decide, hregistered, himports, hsame turnsApart hregistered himports, ?_, ?_, ?_⟩
  · rw [hlookup]; decide
  · rw [hlookup]; decide
  · rw [hlookupIn]; decide

end Registry

end Compendium
