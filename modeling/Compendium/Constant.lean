import Compendium.Name

/-!
# Constants and their dependencies

A constant of the formalization mentions others in its type and in its value. This makes a graph,
whose edges lead from a constant to those that it mentions. Two searches go through it: whether one
constant can be reached from others, and which constants of a kind are met first.
-/

namespace Compendium

/-- What mentions a constant: the type of another one, or its value. -/
inductive Role where
  | type
  | value
deriving DecidableEq, Repr

structure Constant where
  name : Name
  typeDeps : List Name
  valueDeps : List Name
deriving DecidableEq, Repr

namespace Constant

def schema : Json.Schema Constant where
  name := "ConstantInfo"
  blank := ⟨⟨""⟩, [], []⟩
  fields := [
    Name.codec.field "name" .required name fun c name => { c with name },
    (Json.Codec.list Name.codec).field "typeDeps" .defaulted typeDeps fun c typeDeps => { c with typeDeps },
    (Json.Codec.list Name.codec).field "valueDeps" .defaulted valueDeps
      fun c valueDeps => { c with valueDeps }]

def codec : Json.Codec Constant := schema.codec

end Constant

structure Mention where
  source : Name
  role : Role
  target : Name
deriving DecidableEq, Repr

structure ConstantGraph where
  /-- The constants, in the order in which they first occurred. -/
  vertices : List Name
  /-- The mentions, in the order in which they were added. -/
  mentions : List Mention

namespace ConstantGraph

def empty : ConstantGraph := ⟨[], []⟩

def addVertex (g : ConstantGraph) (name : Name) : ConstantGraph :=
  if g.vertices.contains name then g else { g with vertices := g.vertices ++ [name] }

def addMention (g : ConstantGraph) (m : Mention) : ConstantGraph :=
  let g := g.addVertex m.target
  { g with mentions := g.mentions ++ [m] }

/-- Adds a constant and what it mentions, in its type first. -/
def add (g : ConstantGraph) (c : Constant) : ConstantGraph :=
  let mentions := c.typeDeps.map (Mention.mk c.name .type) ++ c.valueDeps.map (Mention.mk c.name .value)
  mentions.foldl addMention (g.addVertex c.name)

def ofConstants (constants : List Constant) : ConstantGraph :=
  constants.foldl add empty

def contains (g : ConstantGraph) (name : Name) : Bool :=
  g.vertices.contains name

def size (g : ConstantGraph) : Nat := g.vertices.length

/-- What a constant mentions in one of its roles, in the order in which that was added. -/
def directDeps (g : ConstantGraph) (role : Role) (name : Name) : List Name :=
  (g.mentions.filter fun m => m.source = name && m.role = role).map Mention.target

/-- What a constant mentions, in its type first. -/
def allDeps (g : ConstantGraph) (name : Name) : List Name :=
  g.directDeps .type name ++ g.directDeps .value name

/-! ### Searches

Both searches go on from a constant at most once. A step takes a name off the list of those to be
looked at, and adds what it mentions, of which none is to be counted again; so the names and the
mentions that are left become fewer with each step. -/

/-- The number of mentions by constants that are not among `seen`. -/
def unseen (g : ConstantGraph) (seen : List Name) : Nat :=
  g.mentions.countP fun m => !seen.contains m.source

theorem length_directDeps (g : ConstantGraph) (role : Role) (name : Name) :
    (g.directDeps role name).length = g.mentions.countP fun m => m.source = name && m.role = role := by
  simp [directDeps, List.countP_eq_length_filter]

theorem unseen_cons_add (g : ConstantGraph) {name : Name} {seen : List Name}
    (h : seen.contains name = false) :
    g.unseen (name :: seen) + (g.allDeps name).length = g.unseen seen := by
  simp only [allDeps, List.length_append, length_directDeps, unseen]
  induction g.mentions with
  | nil => rfl
  | cons m ms ih =>
    by_cases hm : m.source = name
    · have hs : seen.contains m.source = false := by rw [hm]; exact h
      cases hr : m.role <;> simp_all <;> omega
    · by_cases hs : m.source ∈ seen
      · simp_all
      · simp_all
        omega

theorem unseen_cons_le (g : ConstantGraph) {name : Name} {seen : List Name}
    (h : seen.contains name = false) : g.unseen (name :: seen) ≤ g.unseen seen := by
  have := g.unseen_cons_add h
  omega

/-- What can be reached from the names in `stack` without going through those in `seen`, together
with `seen`. -/
def reachFrom (g : ConstantGraph) (stack seen : List Name) : List Name :=
  match stack with
  | [] => seen
  | name :: stack =>
    if _h : seen.contains name then g.reachFrom stack seen
    else g.reachFrom (g.allDeps name ++ stack) (name :: seen)
termination_by g.unseen seen + stack.length
decreasing_by
  · simp
  · have := g.unseen_cons_add (by simpa using _h)
    simp only [List.length_append, List.length_cons]
    omega

/-- Whether `marker` is in the graph and can be reached from one of the seeds that are. -/
def reaches (g : ConstantGraph) (seeds : List Name) (marker : Name) : Bool :=
  g.contains marker && (g.reachFrom (seeds.filter g.contains) []).contains marker

/-- The names for which `stop` holds that are met on the way from those in `queue`, nearest first.
The way does not go on behind them, nor through names in `seen`. -/
def frontierFrom (g : ConstantGraph) (stop : Name → Bool) (queue seen : List Name) : List Name :=
  match queue with
  | [] => []
  | name :: queue =>
    if _h : seen.contains name then g.frontierFrom stop queue seen
    else if stop name then name :: g.frontierFrom stop queue (name :: seen)
    else g.frontierFrom stop (queue ++ g.allDeps name) (name :: seen)
termination_by g.unseen seen + queue.length
decreasing_by
  · simp
  · have := g.unseen_cons_le (by simpa using _h : seen.contains name = false)
    simp only [List.length_cons]
    omega
  · have := g.unseen_cons_add (by simpa using _h : seen.contains name = false)
    simp only [List.length_append, List.length_cons]
    omega

/-- The names met first on the way from the seeds that are nodes or the marker. -/
def collectUses (g : ConstantGraph) (seeds : List Name) (isNode : Name → Bool) (marker : Name) : List Name :=
  g.frontierFrom (fun name => name = marker || isNode name) seeds []

end ConstantGraph

end Compendium
