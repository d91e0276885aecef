import Compendium.Proofs.Tables
import Compendium.Proofs.Templates

/-!
# One walk for both forms

The two documents of a module are made in one walk through its items, and each can also be made on its own.
Either way they are the same (`renderModule_eq`), and so is the error where there is one: it is that of the
first item that has no LaTeX form, whatever comes behind it.

The JSON of an item is there as soon as the item is. A walk that has to make it, with lists that grow at
their ends, could fail at that as well, between two items that have a LaTeX form. As long as it does not,
it gives the same (`Gathered.addAll_eq`).
-/

namespace Compendium

/-- What comes behind a step that fails makes no difference. -/
theorem mapM_append_of_error {α β ε : Type} {f : α → Except ε β} {as : List α} {e : ε} (h : as.mapM f = .error e)
    (bs : List α) : (as ++ bs).mapM f = .error e := by
  rw [List.mapM_append, h]
  rfl

namespace LatexRenderer

variable {r : LatexRenderer} {module : Name} {items : List Item} {i : Item} {e : Error}
  {json : Item → Except Error Json.Value}

/-! ### The LaTeX form alone -/

theorem module_eq_error_iff_mapM :
    r.module module items = .error e ↔ (items.mapM fun i => inModule module (r.item i)) = .error e :=
  bind_pure_eq_error_iff

/-- The error of a module is that of its first item that has one. -/
theorem module_eq_error_iff :
    r.module module items = .error e ↔
      ∃ before i after cause, items = before ++ i :: after ∧ (∀ b ∈ before, ∃ latex, r.item b = .ok latex) ∧
        r.item i = .error cause ∧ e = .inModule module cause := by
  rw [module_eq_error_iff_mapM, mapM_eq_error_iff]
  simp only [inModule_eq_ok_iff, inModule_eq_error_iff]
  constructor
  · rintro ⟨before, i, after, hitems, hbefore, cause, hcause, he⟩
    exact ⟨before, i, after, cause, hitems, hbefore, hcause, he⟩
  · rintro ⟨before, i, after, cause, hitems, hbefore, hcause, he⟩
    exact ⟨before, i, after, hitems, hbefore, cause, hcause, he⟩

theorem module_append_of_error (h : r.module module items = .error e) (more : List Item) :
    r.module module (items ++ more) = .error e :=
  module_eq_error_iff_mapM.mpr (mapM_append_of_error (module_eq_error_iff_mapM.mp h) more)

/-! ### Both forms -/

theorem inModule_bothForms (r : LatexRenderer) (module : Name) (i : Item) :
    inModule module (r.bothForms i) = (inModule module (r.item i)).map fun unit => (unit, i.json) := by
  rw [bothForms]
  cases r.item i with
  | error cause => rfl
  | ok unit => rfl

/-- The walk for both forms goes as far as the one for LaTeX. -/
theorem mapM_bothForms (r : LatexRenderer) (module : Name) (items : List Item) :
    (items.mapM fun i => inModule module (r.bothForms i)) =
      (items.mapM fun i => inModule module (r.item i)).map fun units => units.zip (items.map Item.json) := by
  simp only [inModule_bothForms]
  induction items with
  | nil => rfl
  | cons i items ih =>
    rw [List.mapM_cons, List.mapM_cons, ih]
    cases inModule module (r.item i) with
    | error e => rfl
    | ok unit =>
      cases items.mapM fun i => inModule module (r.item i) with
      | error e => rfl
      | ok units => rfl

end LatexRenderer

open LatexRenderer

variable {registry : Registry} {config : Config} {module : Name} {items : List Item} {e : Error}

theorem renderModule_eq (registry : Registry) (config : Config) (module : Name) (items : List Item) :
    renderModule registry config module items =
      (LatexRenderer.module ⟨registry, config⟩ module items).map fun latex => ⟨latex, moduleJson items⟩ := by
  have hforms : renderModule registry config module items =
      (items.mapM fun i => inModule module (bothForms ⟨registry, config⟩ i)) >>=
        fun forms => pure ⟨document (forms.map Prod.fst), .array (forms.map Prod.snd)⟩ := rfl
  rw [hforms, mapM_bothForms, LatexRenderer.module]
  cases hunits : items.mapM fun i => inModule module (item ⟨registry, config⟩ i) with
  | error e => rfl
  | ok units =>
    have hlength : units.length = (items.map Item.json).length := by
      rw [List.length_map, (mapM_eq_ok_iff.mp hunits).length_eq]
    show Except.ok _ = Except.ok _
    rw [List.map_fst_zip (Nat.le_of_eq hlength), List.map_snd_zip (Nat.le_of_eq hlength.symm)]
    rfl

theorem renderModule_eq_ok_iff {d : RenderedModule} :
    renderModule registry config module items = .ok d ↔
      LatexRenderer.module ⟨registry, config⟩ module items = .ok d.latex ∧ d.json = moduleJson items := by
  obtain ⟨latex, json⟩ := d
  rw [renderModule_eq]
  cases LatexRenderer.module ⟨registry, config⟩ module items with
  | error e => exact ⟨nofun, fun h => nomatch h.1⟩
  | ok latex' => simp [Except.map, eq_comm (a := json)]

theorem renderModule_eq_error_iff_module :
    renderModule registry config module items = .error e ↔
      LatexRenderer.module ⟨registry, config⟩ module items = .error e := by
  rw [renderModule_eq]
  cases LatexRenderer.module ⟨registry, config⟩ module items with
  | error e' => simp [Except.map]
  | ok latex => exact ⟨nofun, nofun⟩

/-! ### A walk that makes the JSON forms -/

/-- What a walk through a module has gathered so far. -/
structure Gathered where
  units : List (List Char)
  objects : List Json.Value

namespace Gathered

def documents (g : Gathered) : RenderedModule := ⟨document g.units, .array g.objects⟩

/-- Adds the LaTeX form of an item and then its JSON form, each of which it may not have. -/
def add (r : LatexRenderer) (json : Item → Except Error Json.Value) (module : Name) (g : Gathered) (i : Item) :
    Except Error Gathered := do
  let unit ← inModule module (r.item i)
  let object ← inModule module (json i)
  return ⟨g.units ++ [unit], g.objects ++ [object]⟩

def addAll (r : LatexRenderer) (json : Item → Except Error Json.Value) (module : Name) (items : List Item)
    (g : Gathered) : Except Error Gathered :=
  items.foldlM (add r json module) g

variable {r : LatexRenderer} {json : Item → Except Error Json.Value} {i : Item}

theorem add_eq (hi : json i = .ok i.json) (g : Gathered) :
    g.add r json module i =
      (inModule module (r.item i)).map fun unit => ⟨g.units ++ [unit], g.objects ++ [i.json]⟩ := by
  rw [add, hi]
  cases inModule module (r.item i) with
  | error e => rfl
  | ok unit => rfl

/-- If each item has a JSON form, the walk fails where the one for LaTeX alone does. -/
theorem addAll_eq (hjson : ∀ i ∈ items, json i = .ok i.json) (g : Gathered) :
    addAll r json module items g =
      (items.mapM fun i => inModule module (r.item i)).map fun units =>
        ⟨g.units ++ units, g.objects ++ items.map Item.json⟩ := by
  -- what has been gathered changes with each item, and stays in front of what is still to come
  induction items generalizing g with
  | nil =>
    rw [List.map_nil, addAll, List.foldlM_nil, List.mapM_nil]
    simp only [pure, Except.pure, Except.map, List.append_nil]
  | cons i items ih =>
    obtain ⟨hi, hitems⟩ := List.forall_mem_cons.mp hjson
    rw [addAll, List.foldlM_cons, add_eq hi, List.mapM_cons]
    cases inModule module (r.item i) with
    | error e => rfl
    | ok unit =>
      show addAll r json module items _ = _
      rw [ih hitems]
      cases items.mapM fun i => inModule module (r.item i) with
      | error e => rfl
      | ok units =>
        show Except.ok (⟨g.units ++ [unit] ++ units, g.objects ++ [i.json] ++ items.map Item.json⟩ : Gathered) = _
        rw [List.append_assoc, List.append_assoc]
        rfl

theorem documents_addAll (hjson : ∀ i ∈ items, json i = .ok i.json) :
    (addAll ⟨registry, config⟩ json module items ⟨[], []⟩).map documents =
      renderModule registry config module items := by
  rw [addAll_eq hjson, renderModule_eq, LatexRenderer.module]
  cases items.mapM fun i => inModule module (item ⟨registry, config⟩ i) with
  | error e => rfl
  | ok units => rfl

end Gathered

/-- The walk for both documents of a module agrees with making each on its own. It succeeds exactly if there
is a LaTeX document, and has then this one and the JSON document, with one form for each item. It fails with
the same error, which names the module and has the first item without a LaTeX form as its cause, so more
items at the end make no difference. And it is a walk that gathers the forms of one item after the other,
if the JSON forms can be had. -/
theorem renderModule_is_both_documents (registry : Registry) (config : Config) (module : Name) (items : List Item) :
    let r : LatexRenderer := ⟨registry, config⟩
    ((∃ d, renderModule registry config module items = .ok d) ↔ ∃ latex, r.module module items = .ok latex) ∧
    (∀ d, renderModule registry config module items = .ok d →
      r.module module items = .ok d.latex ∧ d.json = moduleJson items ∧
      ∃ forms, moduleJson items = .array forms ∧ forms.length = items.length) ∧
    (∀ e, renderModule registry config module items = .error e ↔ r.module module items = .error e) ∧
    (∀ e, r.module module items = .error e ↔
      ∃ before i after cause, items = before ++ i :: after ∧ (∀ b ∈ before, ∃ latex, r.item b = .ok latex) ∧
        r.item i = .error cause ∧ e = .inModule module cause) ∧
    (∀ e, renderModule registry config module items = .error e → ∀ more,
      renderModule registry config module (items ++ more) = .error e ∧ r.module module (items ++ more) = .error e) ∧
    ∀ json, (∀ i ∈ items, json i = .ok i.json) →
      (Gathered.addAll r json module items ⟨[], []⟩).map Gathered.documents =
        renderModule registry config module items := by
  refine ⟨⟨?_, ?_⟩, fun d hd => ?_, fun e => renderModule_eq_error_iff_module, fun e => module_eq_error_iff,
    fun e he more => ?_, fun json => Gathered.documents_addAll⟩
  · rintro ⟨d, hd⟩
    exact ⟨d.latex, (renderModule_eq_ok_iff.mp hd).1⟩
  · rintro ⟨latex, hlatex⟩
    exact ⟨⟨latex, moduleJson items⟩, renderModule_eq_ok_iff.mpr ⟨hlatex, rfl⟩⟩
  · obtain ⟨hlatex, hjson⟩ := renderModule_eq_ok_iff.mp hd
    exact ⟨hlatex, hjson, _, rfl, List.length_map _⟩
  · have hmore := module_append_of_error (renderModule_eq_error_iff_module.mp he) more
    exact ⟨renderModule_eq_error_iff_module.mpr hmore, hmore⟩

def Node.tabular (name : String) : Node :=
  { Node.ofStatement ⟨name⟩ ⟨true, "*A*", [⟨"c"⟩], "theorem"⟩ with
    proof := some ⟨false, "| x |\n|---|", [], "proof"⟩ }

/-- Of two nodes with tables, the first one is at fault. -/
theorem renderModule_is_both_documents_tabular :
    let e := Error.inModule ⟨"m"⟩ (.inNode ⟨"a"⟩ (.unsupported .table))
    let items := [.doc "T", .content (.node (.tabular "a"))]
    LatexRenderer.module ⟨.empty, .default⟩ ⟨"m"⟩ items = .error e ∧
      renderModule .empty .default ⟨"m"⟩ items = .error e ∧
      renderModule .empty .default ⟨"m"⟩ (items ++ [.content (.node (.tabular "b"))]) = .error e ∧
      (Gathered.addAll ⟨.empty, .default⟩ (fun i => .ok i.json) ⟨"m"⟩ items ⟨[], []⟩).map Gathered.documents =
        .error e := by
  intro e items
  obtain ⟨-, -, herror, hfirst, hmore, hgathered⟩ := renderModule_is_both_documents .empty .default ⟨"m"⟩ items
  have hnode : LatexRenderer.item ⟨.empty, .default⟩ (.content (.node (.tabular "a"))) =
      .error (.inNode ⟨"a"⟩ (.unsupported .table)) := by
    decide +kernel
  have hmodule : LatexRenderer.module ⟨.empty, .default⟩ ⟨"m"⟩ items = .error e :=
    (hfirst e).mpr ⟨[.doc "T"], _, [], _, rfl, List.forall_mem_singleton.mpr ⟨_, rfl⟩, hnode, rfl⟩
  have hboth := (herror e).mpr hmodule
  exact ⟨hmodule, hboth, (hmore e hboth _).1, (hgathered _ fun _ _ => rfl).trans hboth⟩

end Compendium
