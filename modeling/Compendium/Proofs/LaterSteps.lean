import Compendium.Proofs.History
import Compendium.Proofs.Loading
import Compendium.Proofs.ModuleText
import Compendium.Proofs.Recording

/-!
# A session after it was loaded

A loaded module is frozen, and its entries hold the nodes themselves. So whatever is registered,
configured or recorded later, the module has the same items (`Keeps`), and its JSON is the same
whenever it is rendered. Other modules can only come behind the loaded ones.
-/

namespace Compendium

/-- What is done to a session. -/
inductive Session.Step where
  | nodes (e : Registry.Event)
  | configure (c : Config)
  | record (call : Store.Call)
deriving DecidableEq, Repr

namespace Session

/-- The session behind a step, which may have failed. -/
def after (s : Session) : Step → Session
  | .nodes e => { s with registry := s.registry.apply e }
  | .configure c => { s with config := c }
  | .record call => { s with store := s.store.after call }

def run (s : Session) (steps : List Step) : Session := steps.foldl after s

/-- `s'` has the modules of `s` in their places, and those that were frozen in `s` are the same. -/
structure Keeps (s s' : Session) : Prop where
  names : s.store.names <+: s'.store.names
  frozen : ∀ module c, s.store.modules.find? module = some c → c.isFrozen = true →
    s'.store.modules.find? module = some c

namespace Keeps

variable {s s' s'' : Session} {module : Name} {c : Contents}

theorem of_store_eq (h : s'.store = s.store) : s.Keeps s' :=
  ⟨h ▸ List.prefix_rfl, fun _ _ hc _ => h ▸ hc⟩

theorem refl (s : Session) : s.Keeps s := of_store_eq rfl

theorem trans (h : s.Keeps s') (h' : s'.Keeps s'') : s.Keeps s'' :=
  ⟨h.names.trans h'.names, fun module c hc hf => h'.frozen module c (h.frozen module c hc hf) hf⟩

theorem step (s : Session) (step : Step) : s.Keeps (s.after step) := by
  cases step with
  | nodes e => exact of_store_eq rfl
  | configure c => exact of_store_eq rfl
  | record call =>
    exact ⟨Store.names_prefix_after s.store call, fun module c hc hf => Store.find?_after_of_frozen hc hf call⟩

theorem run (s : Session) (steps : List Step) : s.Keeps (s.run steps) := by
  induction steps generalizing s with
  | nil => exact refl s
  | cons first steps ih => exact (step s first).trans (ih (s.after first))

theorem items_eq (h : s.Keeps s') (hc : s.store.contents module = .ok c) (hf : c.isFrozen = true) :
    s'.items module = .ok c.items := by
  have hfind := h.frozen module c (Store.contents_eq_ok_iff.mp hc) hf
  rw [items, Store.items, Store.contents_eq_ok_iff.mpr hfind]
  rfl

end Keeps

theorem json_of_render {s : Session} {module : Name} {items : List Item} {d : RenderedModule}
    (hitems : s.items module = .ok items) (hd : s.render module = .ok d) : d.json = moduleJson items := by
  rw [render, hitems] at hd
  exact json_of_renderModule hd

/-- Whatever is done to a session after a manifest was loaded, the modules of the manifest come first
and in their order, and each of them has the items that it had, so its JSON is the same in every
session in which it can be rendered. -/
theorem loaded_modules_stay (m : Manifest) (s : Session) (h : ofManifest m = .ok s) (steps : List Step) :
    s.store.names = m.modules.map ModuleRecord.name ∧ s.store.names <+: (s.run steps).store.names ∧
    ∀ r ∈ m.modules, ∃ items, s.items r.name = .ok items ∧ (s.run steps).items r.name = .ok items ∧
      (∀ d, s.render r.name = .ok d → d.json = moduleJson items) ∧
      ∀ d, (s.run steps).render r.name = .ok d → d.json = moduleJson items := by
  obtain ⟨-, hloaded⟩ := (Manifest.ofManifest_yields m).of_eq_ok h
  have hkeeps := Keeps.run s steps
  refine ⟨hloaded.names, hkeeps.names, fun r hr => ?_⟩
  obtain ⟨c, hc, hrecord⟩ := hloaded.contents r hr
  have hitems := (Keeps.refl s).items_eq hc hrecord.frozen
  have hlater := hkeeps.items_eq hc hrecord.frozen
  exact ⟨c.items, hitems, hlater, fun d hd => json_of_render hitems hd, fun d hd => json_of_render hlater hd⟩

/-- A module with a node that is drafted. -/
def oneNode : Manifest :=
  { Manifest.empty with
    drafts := [.ofName ⟨"a"⟩]
    modules := [⟨⟨"A"⟩, [⟨⟨2, 0⟩, .node, "a"⟩], [⟨"first", ⟨1, 0⟩⟩]⟩] }

/-- Another node takes the name of the first one, and calls try to add to the module. -/
def redefinition : List Step :=
  [.nodes (.register (.ofStatement ⟨"a"⟩ ⟨true, "New.", [], "lemma"⟩)), .record (.declare ⟨"B"⟩),
    .configure { Config.default with inputRoot := "site" }, .record (.addDoc ⟨"A"⟩ ⟨"late", ⟨0, 0⟩⟩),
    .record (.freeze ⟨"A"⟩)]

theorem loaded_modules_stay_redefinition :
    ∃ s items, ofManifest oneNode = .ok s ∧ s.items ⟨"A"⟩ = .ok items ∧
      (s.run redefinition).items ⟨"A"⟩ = .ok items ∧
      (s.run redefinition).registry.lookup ⟨"a"⟩ ≠ s.registry.lookup ⟨"a"⟩ ∧
      s.store.names = [⟨"A"⟩] ∧ (s.run redefinition).store.names = [⟨"A"⟩, ⟨"B"⟩] := by
  obtain ⟨s, hs, hlookup, hnames⟩ : ∃ s, ofManifest oneNode = .ok s ∧
      (s.run redefinition).registry.lookup ⟨"a"⟩ ≠ s.registry.lookup ⟨"a"⟩ ∧
      (s.run redefinition).store.names = [⟨"A"⟩, ⟨"B"⟩] := ⟨_, rfl, by decide, rfl⟩
  obtain ⟨hfirst, -, hmodules⟩ := loaded_modules_stay oneNode s hs redefinition
  obtain ⟨items, hitems, hlater, -, -⟩ := hmodules _ (List.mem_singleton_self _)
  exact ⟨s, items, hs, hitems, hlater, hlookup, hfirst, hnames⟩

end Session

end Compendium
