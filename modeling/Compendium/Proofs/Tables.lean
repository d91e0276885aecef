import Compendium.Module.Document
import Compendium.Proofs.Outcome

/-!
# Tables

A table is the only construct without a LaTeX form. It counts wherever it stands in a document: in a
quote, in an item of a list, or in those at any depth (`Block.HasTable`). So a node cannot be
rendered exactly if there is a table in its statement or in its proof, and a module not exactly if
one of its nodes cannot; the first such node is the one that the error names. What stands between
the nodes has no part in it.
-/

namespace Compendium

namespace Markdown

/-- There is a table in a block, at whatever depth. -/
inductive Block.HasTable {α : Type} : Block α → Prop
  | table : HasTable .table
  | list {ordered : Bool} {items : List (List (Block α))} {item : List (Block α)} {b : Block α}
      (hitem : item ∈ items) (hb : b ∈ item) (h : HasTable b) : HasTable (.list ordered items)
  | quote {content : List (Block α)} {b : Block α} (hb : b ∈ content) (h : HasTable b) :
      HasTable (.quote content)

def Document.HasTable (d : Document) : Prop := ∃ b ∈ d, b.HasTable

theorem Block.hasTable_list_iff {ordered : Bool} {items : List Document} :
    (Block.list ordered items).HasTable ↔ ∃ item ∈ items, Document.HasTable item := by
  constructor
  · rintro (_ | ⟨hitem, hb, h⟩ | _)
    exact ⟨_, hitem, _, hb, h⟩
  · rintro ⟨item, hitem, b, hb, h⟩
    exact .list hitem hb h

theorem Block.hasTable_quote_iff {content : Document} :
    (Block.quote content).HasTable ↔ content.HasTable := by
  constructor
  · rintro (_ | _ | ⟨hb, h⟩)
    exact ⟨_, hb, h⟩
  · rintro ⟨b, hb, h⟩
    exact .quote hb h

theorem Document.hasTable_cons_iff {b : Block (List Inline)} {bs : Document} :
    Document.HasTable (b :: bs) ↔ b.HasTable ∨ Document.HasTable bs := by
  simp [Document.HasTable]

namespace Latex

instance : Subsingleton Unsupported := ⟨fun | .table, .table => rfl⟩

mutual

/-- A block fails exactly if there is a table in it. -/
theorem ofBlock_eq_error_iff (c : Unsupported) :
    ∀ b : Block (List Inline), ofBlock b = .error c ↔ b.HasTable
  | .paragraph _ => ⟨nofun, nofun⟩
  | .heading .. => ⟨nofun, nofun⟩
  | .list ordered items => by
    rw [ofBlock, bind_pure_eq_error_iff, ofItems_eq_error_iff c items, Block.hasTable_list_iff]
  | .quote content => by
    rw [ofBlock, bind_pure_eq_error_iff, ofBlocks_eq_error_iff c content, Block.hasTable_quote_iff]
  | .code _ => ⟨nofun, nofun⟩
  | .html _ => ⟨nofun, nofun⟩
  | .rule => ⟨nofun, nofun⟩
  | .table => by cases c; exact iff_of_true rfl .table

theorem ofBlocks_eq_error_iff (c : Unsupported) : ∀ d : Document, ofBlocks d = .error c ↔ d.HasTable
  | [] => ⟨nofun, nofun⟩
  | b :: bs => by
    rw [ofBlocks, bind_bind_pure_eq_error_iff, ofBlock_eq_error_iff c b, ofBlocks_eq_error_iff c bs,
      Document.hasTable_cons_iff]

theorem ofItems_eq_error_iff (c : Unsupported) :
    ∀ items : List Document, ofItems items = .error c ↔ ∃ item ∈ items, item.HasTable
  | [] => ⟨nofun, nofun⟩
  | item :: items => by
    rw [ofItems, bind_bind_pure_eq_error_iff, ofBlocks_eq_error_iff c item, ofItems_eq_error_iff c items]
    simp

end

end Latex

/-- The document that a text says once its citations are resolved. -/
def documentOf (b : Bibliography) (text : String) : Document :=
  Document.ofText (CharRef.shield (b.resolve text.toList))

theorem latex_eq_error_iff {b : Bibliography} {text : String} {c : Latex.Unsupported} :
    latex b text = .error c ↔ (documentOf b text).HasTable := by
  rw [latex, bind_pure_eq_error_iff, blocks, bind_pure_eq_error_iff, Latex.ofBlocks_eq_error_iff]
  rfl

example : latex ⟨[]⟩ "- a\n\n  > b\n  >\n  > | x |\n  > |---|" = .error .table := by decide +kernel

end Markdown

/-! ### Nodes and items -/

/-- There is a table in the statement or in the proof of a node. -/
def Node.HasTable (b : Bibliography) (n : Node) : Prop :=
  ∃ p ∈ n.parts, (Markdown.documentOf b p.text).HasTable

def Item.isNode : Item → Bool
  | .content (.node _) => true
  | _ => false

namespace LatexRenderer

variable {r : LatexRenderer} {n : Node} {i : Item} {e : Error} {c : Markdown.Latex.Unsupported}

theorem part_eq_error_iff {p : Part} {title : Option String} {foot : List Char} :
    r.part p title foot = .error c ↔ (Markdown.documentOf r.config.bibliography p.text).HasTable := by
  rw [part, bind_pure_eq_error_iff, Markdown.latex_eq_error_iff]

theorem parts_eq_error_iff : r.parts n = .error c ↔ n.HasTable r.config.bibliography := by
  rw [parts, Node.HasTable, Node.parts]
  cases hproof : n.proof with
  | none =>
    rw [bind_pure_eq_error_iff, part_eq_error_iff]
    simp
  | some proof =>
    rw [bind_bind_pure_eq_error_iff, part_eq_error_iff, part_eq_error_iff]
    simp

theorem node_eq_error_iff :
    r.node n = .error e ↔ n.HasTable r.config.bibliography ∧ e = .inNode n.name (.unsupported .table) := by
  rw [← parts_eq_error_iff (c := .table), node]
  cases r.parts n with
  | ok latex => simp
  | error construct =>
    cases construct
    simp [eq_comm]

theorem item_eq_error_iff :
    r.item i = .error e ↔ ∃ n, i = .content (.node n) ∧ n.HasTable r.config.bibliography ∧
      e = .inNode n.name (.unsupported .table) := by
  constructor
  · intro h
    match i, h with
    | .content (.node n), h => exact ⟨n, rfl, node_eq_error_iff.mp h⟩
  · rintro ⟨n, rfl, h⟩
    exact node_eq_error_iff.mpr h

theorem inModule_eq_error_iff {α : Type} {module : Name} {x : Except Error α} :
    inModule module x = .error e ↔ ∃ cause, x = .error cause ∧ e = .inModule module cause := by
  cases x with
  | ok a => simp [inModule]
  | error cause => simp [inModule, eq_comm]

/-- One step of the walk through a module. -/
def step (r : LatexRenderer) (module : Name) (i : Item) : Except Error (List Char × Json.Value) :=
  inModule module (r.bothForms i)

theorem step_eq_error_iff {module : Name} :
    r.step module i = .error e ↔ ∃ n, i = .content (.node n) ∧ n.HasTable r.config.bibliography ∧
      e = .inModule module (.inNode n.name (.unsupported .table)) := by
  rw [step, inModule_eq_error_iff]
  simp only [bothForms, bind_pure_eq_error_iff, item_eq_error_iff]
  constructor
  · rintro ⟨cause, ⟨n, hi, htable, rfl⟩, rfl⟩
    exact ⟨n, hi, htable, rfl⟩
  · rintro ⟨n, hi, htable, rfl⟩
    exact ⟨_, ⟨n, hi, htable, rfl⟩, rfl⟩

theorem exists_step_eq_ok_iff {module : Name} :
    (∃ forms, r.step module i = .ok forms) ↔
      ∀ n, i = .content (.node n) → ¬ n.HasTable r.config.bibliography := by
  cases hstep : r.step module i with
  | ok forms =>
    refine iff_of_true ⟨forms, rfl⟩ fun n hi htable => ?_
    have herror : r.step module i = .error _ := step_eq_error_iff.mpr ⟨n, hi, htable, rfl⟩
    rw [hstep] at herror
    cases herror
  | error e =>
    obtain ⟨n, hi, htable, -⟩ := step_eq_error_iff.mp hstep
    exact iff_of_false nofun fun h => h n hi htable

end LatexRenderer

/-! ### Modules -/

variable {registry : Registry} {config : Config} {module : Name} {items : List Item} {e : Error}

theorem renderModule_eq_error_iff_mapM :
    renderModule registry config module items = .error e ↔
      items.mapM (LatexRenderer.step ⟨registry, config⟩ module) = .error e :=
  bind_pure_eq_error_iff

theorem exists_renderModule_eq_error_iff :
    (∃ e, renderModule registry config module items = .error e) ↔
      ∃ n, .content (.node n) ∈ items ∧ n.HasTable config.bibliography := by
  simp only [renderModule_eq_error_iff_mapM, exists_mapM_eq_error_iff, LatexRenderer.step_eq_error_iff]
  constructor
  · rintro ⟨_, hi, e, n, rfl, htable, -⟩
    exact ⟨n, hi, htable⟩
  · rintro ⟨n, hn, htable⟩
    exact ⟨_, hn, _, n, rfl, htable, rfl⟩

/-- The error of a module comes from the first node with a table. -/
theorem renderModule_eq_error_iff :
    renderModule registry config module items = .error e ↔
      ∃ before n after, items = before ++ .content (.node n) :: after ∧
        (∀ m, .content (.node m) ∈ before → ¬ m.HasTable config.bibliography) ∧
        n.HasTable config.bibliography ∧ e = .inModule module (.inNode n.name (.unsupported .table)) := by
  rw [renderModule_eq_error_iff_mapM, mapM_eq_error_iff]
  simp only [LatexRenderer.exists_step_eq_ok_iff, LatexRenderer.step_eq_error_iff]
  constructor
  · rintro ⟨before, _, after, hitems, hbefore, n, rfl, htable, rfl⟩
    exact ⟨before, n, after, hitems, fun m hm => hbefore _ hm m rfl, htable, rfl⟩
  · rintro ⟨before, n, after, hitems, hbefore, htable, he⟩
    refine ⟨before, _, after, hitems, fun i hi m hm => ?_, n, rfl, htable, he⟩
    exact hbefore m (hm ▸ hi)

theorem renderModule_filter_eq_error_iff :
    renderModule registry config module (items.filter Item.isNode) = .error e ↔
      renderModule registry config module items = .error e := by
  rw [renderModule_eq_error_iff_mapM, renderModule_eq_error_iff_mapM]
  refine mapM_filter_eq_error_iff fun i hi => LatexRenderer.exists_step_eq_ok_iff.mpr ?_
  rintro n rfl
  cases hi

/-- A document has no LaTeX form exactly if there is a table in it, at whatever depth. So a module
cannot be rendered exactly if one of its nodes has a table in its statement or its proof. The error
names the module and the first such node, and its cause is that tables are not supported. What is no
node can be left out of the module without a change in this. -/
theorem renderModule_fails_iff_hasTable (registry : Registry) (config : Config) (module : Name)
    (items : List Item) :
    (∀ (d : Markdown.Document) c, Markdown.Latex.ofBlocks d = .error c ↔ d.HasTable) ∧
    ((∃ e, renderModule registry config module items = .error e) ↔
      ∃ n, .content (.node n) ∈ items ∧ n.HasTable config.bibliography) ∧
    (∀ e, renderModule registry config module items = .error e ↔
      ∃ before n after, items = before ++ .content (.node n) :: after ∧
        (∀ m, .content (.node m) ∈ before → ¬ m.HasTable config.bibliography) ∧
        n.HasTable config.bibliography ∧
        e = .inModule module (.inNode n.name (.unsupported .table)) ∧ e.isUnsupported = true) ∧
    (∀ e, renderModule registry config module (items.filter Item.isNode) = .error e ↔
      renderModule registry config module items = .error e) := by
  refine ⟨fun d c => Markdown.Latex.ofBlocks_eq_error_iff c d, exists_renderModule_eq_error_iff,
    fun e => ?_, fun e => renderModule_filter_eq_error_iff⟩
  rw [renderModule_eq_error_iff]
  constructor
  · rintro ⟨before, n, after, hitems, hbefore, htable, rfl⟩
    exact ⟨before, n, after, hitems, hbefore, htable, rfl, rfl⟩
  · rintro ⟨before, n, after, hitems, hbefore, htable, he, -⟩
    exact ⟨before, n, after, hitems, hbefore, htable, he⟩

end Compendium
