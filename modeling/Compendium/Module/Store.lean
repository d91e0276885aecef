import Compendium.Error
import Compendium.Keyed
import Compendium.Module.Content

/-!
# The store of modules

Content is added to modules until they are frozen; from then on they are only read. An operation
that fails leaves the store as it is.
-/

namespace Compendium

/-- The contents of modules by name, in the order in which the modules were first mentioned. -/
structure Store where
  modules : Keyed Name Contents

namespace Store

def empty : Store := ⟨[]⟩

def names (s : Store) : List Name := s.modules.keys

/-- Changes the contents of a module that is not frozen. A module that was not mentioned before is
empty. -/
def update (s : Store) (module : Name) (change : Contents → Contents) : Except Error Store :=
  let c := (s.modules.find? module).getD .empty
  if c.isFrozen then .error (.moduleFrozen module) else .ok ⟨s.modules.set module (change c)⟩

/-- Mentions a module, even if it stays empty. -/
def declare (s : Store) (module : Name) : Except Error Store :=
  s.update module id

def addEntry (s : Store) (module : Name) (e : Entry) : Except Error Store :=
  s.update module fun c => { c with entries := c.entries ++ [e] }

def addDoc (s : Store) (module : Name) (d : Doc) : Except Error Store :=
  s.update module fun c => { c with docs := c.docs ++ [d] }

def contents (s : Store) (module : Name) : Except Error Contents :=
  match s.modules.find? module with
  | some c => .ok c
  | none => .error (.moduleNotFound module)

/-- Ends the recording of a module, which may have ended before. -/
def freeze (s : Store) (module : Name) : Except Error Store := do
  let c ← s.contents module
  return ⟨s.modules.set module { c with isFrozen := true }⟩

def items (s : Store) (module : Name) : Except Error (List Item) := do
  return (← s.contents module).items

end Store

end Compendium
