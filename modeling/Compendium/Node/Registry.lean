import Compendium.Keyed
import Compendium.Node.Basic

/-!
# The registry of nodes

Nodes of the unit at hand are registered one by one; a later node takes the place of an earlier one
of the same name. Nodes of other units are imported unit by unit and kept apart. A name means the
node of the unit at hand first, and then that of the unit that was imported earliest.
-/

namespace Compendium

/-- Nodes with different names. -/
abbrev NodeTable := List Node

namespace NodeTable

def find? (t : NodeTable) (name : Name) : Option Node :=
  List.find? (fun n => n.name = name) t

/-- The table with `n` in the place of the node of its name, or as a new node. -/
def insert (n : Node) : NodeTable → NodeTable
  | [] => [n]
  | m :: t => if m.name = n.name then n :: t else m :: insert n t

def insertAll (nodes : List Node) (t : NodeTable) : NodeTable :=
  nodes.foldl (fun t n => t.insert n) t

def names (t : NodeTable) : List Name := t.map Node.name

theorem find?_insert (n : Node) (t : NodeTable) (name : Name) :
    (t.insert n).find? name = if n.name = name then some n else t.find? name := by
  induction t with
  | nil => by_cases h : n.name = name <;> simp [insert, find?, h]
  | cons m t ih =>
    simp only [find?] at ih
    rw [insert]
    split
    · rename_i hm
      by_cases h : n.name = name <;> simp [find?, hm, h]
    · rename_i hm
      by_cases h : m.name = name
      · have : n.name ≠ name := fun hn => hm (h.trans hn.symm)
        simp [find?, h, this]
      · simp [find?, h, ih]

theorem names_insert (n : Node) (t : NodeTable) :
    (t.insert n).names = if n.name ∈ t.names then t.names else t.names ++ [n.name] := by
  induction t with
  | nil => simp [insert, names]
  | cons m t ih =>
    simp only [names] at ih
    rw [insert]
    split
    · rename_i hm
      simp [names, hm]
    · rename_i hm
      have hm' : n.name ≠ m.name := fun h => hm h.symm
      simp only [names, List.map_cons, ih, List.mem_cons, hm', false_or]
      by_cases h : n.name ∈ t.map Node.name <;> simp [h]

end NodeTable

structure Registry where
  /-- The nodes of the unit at hand. -/
  own : NodeTable
  /-- The nodes of other units, in the order in which the units were first imported. -/
  imported : Keyed Name NodeTable

namespace Registry

def empty : Registry := ⟨[], []⟩

def register (r : Registry) (n : Node) : Registry :=
  { r with own := r.own.insert n }

def importUnit (r : Registry) (unit : Name) (nodes : List Node) : Registry :=
  { r with imported := r.imported.set unit (((r.imported.find? unit).getD []).insertAll nodes) }

/-- The node that a name means. -/
def lookup (r : Registry) (name : Name) : Option Node :=
  (r.own.find? name).or (r.imported.findSome? fun u => u.2.find? name)

def lookupIn (r : Registry) (unit name : Name) : Option Node :=
  (r.imported.find? unit).bind fun t => t.find? name

/-- Whether a name means a node. -/
def contains (r : Registry) (name : Name) : Bool :=
  (r.lookup name).isSome

/-- The names that mean a node, in their order. -/
def filterKnown (r : Registry) (names : List Name) : List Name :=
  names.filter r.contains

def size (r : Registry) : Nat := r.own.length

def sortedNodes (r : Registry) : List Node :=
  r.own.mergeSort fun m n => m.name.le n.name

theorem lookup_register (r : Registry) (n : Node) (name : Name) :
    (r.register n).lookup name = if n.name = name then some n else r.lookup name := by
  simp only [lookup, register, NodeTable.find?_insert]
  split <;> simp

end Registry

end Compendium
