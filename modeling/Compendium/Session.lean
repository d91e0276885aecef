import Compendium.Inference
import Compendium.Manifest
import Compendium.Module.Document
import Compendium.Module.Store

/-!
# Sessions

A session has everything from a manifest in its place: the nodes of other units, the nodes that the
drafts became, and the modules with their content.
-/

namespace Compendium

structure Session where
  config : Config
  registry : Registry
  store : Store

namespace Session

def empty (config : Config) : Session := ⟨config, .empty, .empty⟩

def importAll (imports : List ImportedUnit) : Registry :=
  imports.foldl (fun r i => r.importUnit i.unit i.nodes) .empty

/-- Finishes a draft and registers the node that it becomes. -/
def addDraft (constants : ConstantGraph) (marker : Name) (r : Registry) (d : Draft) : Registry :=
  r.register (Inference.finish ⟨constants, r, marker⟩ d)

/-- Finishes the drafts one after the other. A draft can depend on the nodes before it. -/
def addDrafts (constants : ConstantGraph) (marker : Name) (drafts : List Draft) (r : Registry) : Registry :=
  drafts.foldl (addDraft constants marker) r

def entry (r : Registry) (e : EntryRecord) : Except Error Entry :=
  match e.type with
  | .library => .ok ⟨e.position, .library ⟨e.data⟩⟩
  | .module => .ok ⟨e.position, .module ⟨e.data⟩⟩
  | .node =>
    match r.lookup ⟨e.data⟩ with
    | some n => .ok ⟨e.position, .node n⟩
    | none => .error (.nodeNotFound ⟨e.data⟩)
  | .text => .ok ⟨e.position, .text e.data⟩

/-- Records a module, which must be new, and freezes it. -/
def addModule (r : Registry) (s : Store) (m : ModuleRecord) : Except Error Store := do
  if (s.contents m.name).isOk then throw (.repeatedModule m.name)
  let s ← s.declare m.name
  let s ← m.entries.foldlM (fun s e => do s.addEntry m.name (← entry r e)) s
  let s ← m.docs.foldlM (fun s d => s.addDoc m.name d) s
  s.freeze m.name

def ofManifest (m : Manifest) : Except Error Session := do
  let registry := addDrafts (.ofConstants m.constants) m.config.sorryMarker m.drafts (importAll m.imports)
  return ⟨m.config, registry, ← m.modules.foldlM (addModule registry) .empty⟩

def ofText (text : String) : Except Error Session := do
  ofManifest (← Manifest.ofText text)

def items (s : Session) (module : Name) : Except Error (List Item) :=
  s.store.items module

def render (s : Session) (module : Name) : Except Error RenderedModule := do
  renderModule s.registry s.config module (← s.items module)

end Session

end Compendium
