import Mathlib.Data.List.Induction
import Compendium.Proofs.Keyed
import Compendium.Session

/-!
# What a name means after registering and importing

The nodes of the unit at hand and those of other units are kept apart, so each side of a registry is
settled by its own history: a name means the last node that was registered under it, and if there is
none, then the last one that was given to the earliest unit with a node of that name
(`find?_insertAll`, `lookup_importAll`).
-/

namespace Compendium

/-! ### Names at their first places -/

namespace Name

theorem mem_distinct {names : List Name} {name : Name} : name ∈ distinct names ↔ name ∈ names :=
  List.mem_eraseDups

theorem distinct_concat (names : List Name) (name : Name) :
    distinct (names ++ [name]) = if name ∈ names then distinct names else distinct names ++ [name] := by
  unfold distinct
  rw [List.eraseDups_append]
  split
  · rename_i h
    have : [name].removeAll names = [] := by simpa [List.removeAll] using h
    simp [this]
  · rename_i h
    have : [name].removeAll names = [name] := by simpa [List.removeAll] using h
    rw [this]; rfl

theorem nodup_distinct (names : List Name) : (distinct names).Nodup := by
  induction names using List.reverseRecOn with
  | nil => exact List.nodup_nil
  | append_singleton names name ih =>
    rw [distinct_concat]
    split
    · exact ih
    · rename_i h
      refine List.nodup_append.mpr ⟨ih, List.nodup_singleton name, ?_⟩
      rintro x hx y hy rfl
      exact h (mem_distinct.1 (List.mem_singleton.mp hy ▸ hx))

end Name

/-! ### Nodes by name -/

namespace Node

/-- The last node of a name. -/
def lastNamed (nodes : List Node) (name : Name) : Option Node :=
  nodes.findRev? fun n => n.name = name

theorem lastNamed_append (xs ys : List Node) (name : Name) :
    lastNamed (xs ++ ys) name = (lastNamed ys name).or (lastNamed xs name) := by
  simp [lastNamed]

theorem isSome_lastNamed {nodes : List Node} {name : Name} :
    (lastNamed nodes name).isSome ↔ ∃ n ∈ nodes, n.name = name := by
  simp [lastNamed]

theorem mem_of_lastNamed {nodes : List Node} {name : Name} {n : Node}
    (h : lastNamed nodes name = some n) : n ∈ nodes ∧ n.name = name := by
  rw [lastNamed, List.findRev?_eq_find?_reverse] at h
  exact ⟨List.mem_reverse.mp (List.mem_of_find?_eq_some h), by simpa using List.find?_some h⟩

theorem lastNamed_singleton (n : Node) (name : Name) :
    lastNamed [n] name = if n.name = name then some n else none := by
  by_cases h : n.name = name <;> simp [lastNamed, h]

/-- A node is the last of its name if none behind it has that name. -/
theorem lastNamed_of_getElem? {nodes : List Node} {k : Nat} {n : Node} (hn : nodes[k]? = some n)
    (hlast : ∀ j n', k < j → nodes[j]? = some n' → n'.name ≠ n.name) :
    lastNamed nodes n.name = some n := by
  obtain ⟨hk, hget⟩ := List.getElem?_eq_some_iff.mp hn
  have hsplit : nodes = (nodes.take k ++ [n]) ++ nodes.drop (k + 1) := by
    rw [← hget, List.take_append_getElem hk, List.take_append_drop]
  have hnone : lastNamed (nodes.drop (k + 1)) n.name = none := by
    rw [← Option.not_isSome_iff_eq_none, isSome_lastNamed]
    rintro ⟨n', hn', hname⟩
    obtain ⟨j, hj⟩ := List.mem_iff_getElem?.mp hn'
    rw [List.getElem?_drop] at hj
    exact hlast _ n' (by omega) hj hname
  rw [hsplit, lastNamed_append, hnone, lastNamed_append, lastNamed_singleton, if_pos rfl]
  rfl

end Node

open Node

theorem NodeTable.find?_insertAll (nodes : List Node) (t : NodeTable) (name : Name) :
    (t.insertAll nodes).find? name = (lastNamed nodes name).or (t.find? name) := by
  induction nodes generalizing t with
  | nil => rfl
  | cons n nodes ih =>
    have hcons : t.insertAll (n :: nodes) = (t.insert n).insertAll nodes := rfl
    rw [hcons, ih, NodeTable.find?_insert, ← List.singleton_append, lastNamed_append,
      lastNamed_singleton, Option.or_assoc]
    split <;> rfl

theorem NodeTable.names_insertAll (nodes : List Node) :
    (NodeTable.insertAll nodes []).names = Name.distinct (nodes.map Node.name) := by
  induction nodes using List.reverseRecOn with
  | nil => rfl
  | append_singleton nodes n ih =>
    have hconcat : NodeTable.insertAll (nodes ++ [n]) [] = (NodeTable.insertAll nodes []).insert n := by
      simp [NodeTable.insertAll]
    rw [hconcat, NodeTable.names_insert, ih, List.map_append, List.map_singleton, Name.distinct_concat]
    simp only [Name.mem_distinct]

namespace Registry

variable {name : Name}

theorem contains_register (r : Registry) (n : Node) :
    (r.register n).contains name = true ↔ r.contains name = true ∨ n.name = name := by
  unfold contains
  rw [lookup_register]
  split
  · rename_i h; simp [h]
  · rename_i h; simp [h]

theorem own_foldl_register (nodes : List Node) (r : Registry) :
    (nodes.foldl register r).own = r.own.insertAll nodes := by
  induction nodes generalizing r with
  | nil => rfl
  | cons n nodes ih => exact ih (r.register n)

theorem imported_foldl_register (nodes : List Node) (r : Registry) :
    (nodes.foldl register r).imported = r.imported := by
  induction nodes generalizing r with
  | nil => rfl
  | cons n nodes ih => exact ih (r.register n)

theorem lookup_foldl_register (nodes : List Node) (r : Registry) (name : Name) :
    (nodes.foldl register r).lookup name = (lastNamed nodes name).or (r.lookup name) := by
  unfold lookup
  rw [own_foldl_register, imported_foldl_register, NodeTable.find?_insertAll, Option.or_assoc]

theorem lookupIn_foldl_register (nodes : List Node) (r : Registry) (unit name : Name) :
    (nodes.foldl register r).lookupIn unit name = r.lookupIn unit name := by
  unfold lookupIn
  rw [imported_foldl_register]

end Registry

/-! ### Imports -/

namespace ImportedUnit

/-- The nodes that were given to a unit, in order. -/
def nodesOf (imports : List ImportedUnit) (unit : Name) : List Node :=
  (imports.filter fun i => i.unit = unit).flatMap nodes

/-- The units in the order in which they first came up. -/
def units (imports : List ImportedUnit) : List Name := Name.distinct (imports.map unit)

/-- The node that a name means among the imports: the last one of that name in the first unit that
has one. -/
def lookup (imports : List ImportedUnit) (name : Name) : Option Node :=
  (units imports).findSome? fun unit => lastNamed (nodesOf imports unit) name

theorem nodesOf_concat (imports : List ImportedUnit) (i : ImportedUnit) (unit : Name) :
    nodesOf (imports ++ [i]) unit = nodesOf imports unit ++ if i.unit = unit then i.nodes else [] := by
  by_cases h : i.unit = unit <;> simp [nodesOf, h]

theorem mem_units {imports : List ImportedUnit} {name : Name} :
    name ∈ units imports ↔ name ∈ imports.map unit :=
  Name.mem_distinct

theorem units_concat (imports : List ImportedUnit) (i : ImportedUnit) :
    units (imports ++ [i]) =
      if i.unit ∈ units imports then units imports else units imports ++ [i.unit] := by
  simp only [mem_units]
  unfold units
  rw [List.map_append, List.map_singleton, Name.distinct_concat]

theorem nodup_units (imports : List ImportedUnit) : (units imports).Nodup :=
  Name.nodup_distinct _

theorem isSome_lookup {imports : List ImportedUnit} {name : Name} :
    (lookup imports name).isSome ↔ ∃ i ∈ imports, ∃ n ∈ i.nodes, n.name = name := by
  simp only [lookup, List.findSome?_isSome_iff, isSome_lastNamed]
  constructor
  · rintro ⟨unit, -, n, hn, rfl⟩
    obtain ⟨i, hi, hn⟩ := List.mem_flatMap.mp hn
    exact ⟨i, (List.mem_filter.mp hi).1, n, hn, rfl⟩
  · rintro ⟨i, hi, n, hn, rfl⟩
    refine ⟨i.unit, List.mem_eraseDups.mpr (List.mem_map_of_mem hi), n, ?_, rfl⟩
    exact List.mem_flatMap.mpr ⟨i, List.mem_filter.mpr ⟨hi, by simp⟩, hn⟩

end ImportedUnit

namespace Session
open ImportedUnit

theorem importAll_concat (imports : List ImportedUnit) (i : ImportedUnit) :
    importAll (imports ++ [i]) = (importAll imports).importUnit i.unit i.nodes := by
  simp [importAll]

theorem own_importAll (imports : List ImportedUnit) : (importAll imports).own = [] := by
  induction imports using List.reverseRecOn with
  | nil => rfl
  | append_singleton imports i ih => rw [importAll_concat]; exact ih

theorem keys_imported_importAll (imports : List ImportedUnit) :
    (importAll imports).imported.keys = units imports := by
  induction imports using List.reverseRecOn with
  | nil => rfl
  | append_singleton imports i ih =>
    rw [importAll_concat, units_concat, Registry.importUnit, Keyed.keys_set, ih]

theorem find?_imported_importAll (imports : List ImportedUnit) (unit : Name) :
    ((importAll imports).imported.find? unit).getD [] =
      NodeTable.insertAll (nodesOf imports unit) [] := by
  induction imports using List.reverseRecOn with
  | nil => rfl
  | append_singleton imports i ih =>
    rw [importAll_concat, nodesOf_concat, Registry.importUnit, Keyed.find?_set]
    split
    · rename_i h
      subst h
      rw [ih]
      simp [NodeTable.insertAll]
    · simpa using ih

theorem imported_importAll (imports : List ImportedUnit) :
    (importAll imports).imported =
      (units imports).map fun unit => (unit, NodeTable.insertAll (nodesOf imports unit) []) := by
  rw [← keys_imported_importAll]
  refine Keyed.eq_map_keys ?_ fun unit hunit => ?_
  · rw [keys_imported_importAll]; exact nodup_units imports
  · obtain ⟨t, ht⟩ := Option.isSome_iff_exists.mp ((Keyed.isSome_find?_iff _ unit).mpr hunit)
    have hfind := find?_imported_importAll imports unit
    rw [ht, Option.getD_some] at hfind
    rw [ht, hfind]

theorem lookup_importAll (imports : List ImportedUnit) (name : Name) :
    (importAll imports).lookup name = ImportedUnit.lookup imports name := by
  rw [Registry.lookup, own_importAll, imported_importAll, List.findSome?_map]
  show (units imports).findSome? _ = _
  congr 1
  funext unit
  exact (NodeTable.find?_insertAll _ _ _).trans Option.or_none

theorem lookupIn_importAll (imports : List ImportedUnit) (unit name : Name) :
    (importAll imports).lookupIn unit name = lastNamed (nodesOf imports unit) name := by
  have hfind : (importAll imports).lookupIn unit name =
      NodeTable.find? (((importAll imports).imported.find? unit).getD []) name := by
    unfold Registry.lookupIn
    cases (importAll imports).imported.find? unit <;> rfl
  rw [hfind, find?_imported_importAll]
  exact (NodeTable.find?_insertAll _ _ _).trans Option.or_none

end Session

end Compendium
