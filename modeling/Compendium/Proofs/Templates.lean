import Compendium.Module.Document
import Compendium.Proofs.Outcome

/-!
# What a rendering sees of the registry

The registry is asked for one thing only: which of the names that a part uses mean a node. To see
this, LaTeX is written in two steps. A template is made of the settings and the items alone, with a
gap in each part for its names; a registry fills the gaps (`renderModule_eq_template`). Whatever two
registries do not agree on outside the gaps is nowhere to be seen, and JSON has no gaps at all. What is
in a document is told character by character (`LatexRenderer.IsDocument`, `usesList`).
-/

namespace Compendium

open Markdown.Latex (command)

/-- The text of a document with these units, with an empty line between any two. Without a unit, there is
not even a line. -/
inductive LatexRenderer.IsDocument : List (List Char) → List Char → Prop
  | empty : IsDocument [] []
  | units (first : List Char) (rest : List (List Char)) :
      IsDocument (first :: rest) (first ++ rest.flatMap (fun unit => '\n' :: '\n' :: unit) ++ ['\n'])

theorem LatexRenderer.isDocument_document (units : List (List Char)) : IsDocument units (document units) := by
  cases units with
  | nil =>
    rw [document_nil]
    exact .empty
  | cons first rest =>
    rw [document_cons]
    exact .units first rest

theorem LatexRenderer.IsDocument.eq_document {units : List (List Char)} {text : List Char}
    (h : IsDocument units text) : text = document units := by
  cases h with
  | empty => exact document_nil.symm
  | units first rest => exact (document_cons first rest).symm

/-! ### Templates -/

/-- A part in LaTeX, with a gap for the names that it uses. -/
structure PartTemplate where
  /-- The start of the environment, with the title and the flag of a proved part. -/
  head : List Char
  uses : List Name
  rest : List Char

/-- The command that lists names. There is none for no names at all. -/
def usesList : List Name → List Char
  | [] => []
  | name :: names =>
    ['\\', 'u', 's', 'e', 's', '\x7b'] ++ name.text.toList ++
      names.flatMap (fun name => ',' :: name.text.toList) ++ ['\x7d']

def PartTemplate.fill (known : Name → Bool) (t : PartTemplate) : List Char :=
  t.head ++ usesList (t.uses.filter known) ++ t.rest

inductive ItemTemplate where
  | text (latex : List Char)
  /-- A node, whose parts are on lines of their own. -/
  | node (parts : List PartTemplate)

namespace ItemTemplate

def fill (known : Name → Bool) : ItemTemplate → List Char
  | text latex => latex
  | node [] => []
  | node (part :: parts) => part.fill known ++ parts.flatMap fun part => '\n' :: part.fill known

theorem fill_node (known : Name → Bool) (parts : List PartTemplate) :
    (node parts).fill known = Text.join ['\n'] (parts.map (PartTemplate.fill known)) := by
  cases parts with
  | nil => rfl
  | cons part parts =>
    rw [fill, List.map_cons, Text.join_cons, List.flatMap_map]
    rfl

/-- The names that each part uses. -/
def uses : ItemTemplate → List (List Name)
  | text _ => []
  | node parts => parts.map PartTemplate.uses

end ItemTemplate

def Part.template (config : Config) (p : Part) (title : Option String) (foot : List Char) :
    Except Markdown.Latex.Unsupported PartTemplate := do
  let text ← Markdown.latex config.bibliography p.text
  let environment := p.environment.toList
  return {
    head := command "begin" [environment] ++
      (match title with
        | some title => '[' :: title.toList ++ [']']
        | none => []) ++
      (if p.leanOk then LatexRenderer.flag "leanok" else [])
    uses := p.uses
    rest := text ++ foot ++ '\n' :: command "end" [environment] }

namespace Node

/-- The templates of the statement and of the proof. What stands behind the statement takes only the
settings from the renderer, so its registry can be empty. -/
def partTemplates (config : Config) (n : Node) : Except Markdown.Latex.Unsupported (List PartTemplate) := do
  let statement ← n.statement.template config n.title (LatexRenderer.statementFoot ⟨.empty, config⟩ n)
  match n.proof with
  | some proof => return [statement, ← proof.template config none []]
  | none => return [statement]

def template (config : Config) (n : Node) : Except Error ItemTemplate :=
  match n.partTemplates config with
  | .ok parts => .ok (.node parts)
  | .error construct => .error (.inNode n.name (.unsupported construct))

end Node

namespace Item

/-- What is no node is a text that the empty registry gives as well as any other. -/
def template (config : Config) : Item → Except Error ItemTemplate
  | content (.node n) => n.template config
  | i => (LatexRenderer.item ⟨.empty, config⟩ i).map .text

/-- The names that each part of a node uses. -/
def uses : Item → List (List Name)
  | content (.node n) => n.parts.map Part.uses
  | _ => []

end Item

/-! ### Filling the gaps -/

variable {registry : Registry} {config : Config} {known known' : Name → Bool}

theorem PartTemplate.fill_congr {t : PartTemplate} (h : ∀ u ∈ t.uses, known u = known' u) :
    t.fill known = t.fill known' := by
  rw [fill, fill, List.filter_congr h]

theorem ItemTemplate.fill_congr {t : ItemTemplate} (h : ∀ us ∈ t.uses, ∀ u ∈ us, known u = known' u) :
    t.fill known = t.fill known' := by
  cases t with
  | text latex => rfl
  | node parts =>
    rw [fill_node, fill_node, List.map_congr_left fun part hpart => ?_]
    exact PartTemplate.fill_congr (h _ (List.mem_map_of_mem hpart))

namespace LatexRenderer

theorem usesCommand_eq (r : LatexRenderer) (names : List Name) :
    r.usesCommand names = usesList (names.filter r.registry.contains) := by
  rw [usesCommand, Registry.filterKnown]
  cases names.filter r.registry.contains with
  | nil => rw [if_pos List.isEmpty_nil, usesList]
  | cons name names =>
    have hlist : Text.join [','] ((name :: names).map fun name => name.text.toList) =
        name.text.toList ++ names.flatMap fun name => ',' :: name.text.toList := by
      rw [List.map_cons, Text.join_cons, List.flatMap_map]
      rfl
    rw [if_neg (by simp), hlist, command, usesList]
    simp

theorem part_eq_template (p : Part) (title : Option String) (foot : List Char) :
    part ⟨registry, config⟩ p title foot =
      (p.template config title foot).map (PartTemplate.fill registry.contains) := by
  unfold part Part.template
  cases Markdown.latex config.bibliography p.text with
  | error c => rfl
  | ok text =>
    show Except.ok _ = Except.ok _
    unfold PartTemplate.fill partHead
    cases title with
    | none => simp only [usesCommand_eq, List.append_assoc]
    | some title => simp only [usesCommand_eq, List.append_assoc]

theorem parts_eq_template (n : Node) :
    parts ⟨registry, config⟩ n =
      (n.partTemplates config).map fun ts => Text.join ['\n'] (ts.map (PartTemplate.fill registry.contains)) := by
  have hfoot : statementFoot ⟨registry, config⟩ n = statementFoot ⟨.empty, config⟩ n := rfl
  rw [parts, Node.partTemplates, part_eq_template, hfoot]
  generalize n.statement.template config n.title (statementFoot ⟨.empty, config⟩ n) = statement
  cases statement with
  | error c => rfl
  | ok statement =>
    rw [Except.map, ok_bind, ok_bind]
    -- a proof is a second environment, with a template of its own
    cases n.proof with
    | none => simp [Except.map, pure, Except.pure, Text.join]
    | some proof =>
      simp only [part_eq_template]
      cases proof.template config none [] with
      | error c => rfl
      | ok proof => simp [Except.map, ok_bind, pure, Except.pure, Text.join]

theorem node_eq_template (n : Node) :
    node ⟨registry, config⟩ n = (n.template config).map (ItemTemplate.fill registry.contains) := by
  rw [node, Node.template, parts_eq_template]
  cases n.partTemplates config with
  | error c => rfl
  | ok ts => exact congrArg Except.ok (ItemTemplate.fill_node registry.contains ts).symm

theorem item_eq_template (i : Item) :
    item ⟨registry, config⟩ i = (i.template config).map (ItemTemplate.fill registry.contains) := by
  match i with
  | .content (.library _) => rfl
  | .content (.module _) => rfl
  | .content (.node n) => exact node_eq_template n
  | .content (.text _) => rfl
  | .doc _ => rfl

end LatexRenderer

/-- The templates of a module, each with the JSON of its item. -/
def moduleTemplate (config : Config) (module : Name) (items : List Item) :
    Except Error (List (ItemTemplate × Json.Value)) :=
  items.mapM fun i => LatexRenderer.inModule module ((i.template config).map fun t => (t, i.json))

/-- The documents of a module are its template with the gaps filled. -/
theorem renderModule_eq_template (registry : Registry) (config : Config) (module : Name) (items : List Item) :
    renderModule registry config module items =
      (moduleTemplate config module items).map fun ts =>
        ⟨LatexRenderer.document (ts.map fun t => t.1.fill registry.contains), .array (ts.map Prod.snd)⟩ := by
  have hstep (i : Item) : LatexRenderer.inModule module (LatexRenderer.bothForms ⟨registry, config⟩ i) =
      (LatexRenderer.inModule module ((i.template config).map fun t => (t, i.json))).map
        fun t => (t.1.fill registry.contains, t.2) := by
    rw [LatexRenderer.bothForms, LatexRenderer.item_eq_template]
    cases i.template config with
    | error e => rfl
    | ok t => rfl
  have hforms : renderModule registry config module items =
      (items.mapM fun i => LatexRenderer.inModule module (LatexRenderer.bothForms ⟨registry, config⟩ i)) >>=
        fun forms => pure ⟨LatexRenderer.document (forms.map Prod.fst), .array (forms.map Prod.snd)⟩ := rfl
  rw [hforms, funext hstep, mapM_map, moduleTemplate]
  cases items.mapM fun i => LatexRenderer.inModule module ((i.template config).map fun t => (t, i.json)) with
  | error e => rfl
  | ok ts =>
    show Except.ok _ = Except.ok _
    rw [List.map_map, List.map_map]
    rfl

/-! ### The names in a template -/

theorem Part.uses_template {p : Part} {title : Option String} {foot : List Char} {t : PartTemplate}
    (h : p.template config title foot = .ok t) : t.uses = p.uses := by
  unfold Part.template at h
  cases htext : Markdown.latex config.bibliography p.text with
  | error c => rw [htext] at h; cases h
  | ok text => rw [htext] at h; cases h; rfl

theorem Node.uses_partTemplates {n : Node} {ts : List PartTemplate} (h : n.partTemplates config = .ok ts) :
    ts.map PartTemplate.uses = n.parts.map Part.uses := by
  unfold partTemplates at h
  obtain ⟨statement, hstatement, h⟩ := bind_eq_ok_iff.mp h
  rw [parts]
  cases hproof : n.proof with
  | none =>
    rw [hproof] at h
    cases h
    simp [Part.uses_template hstatement]
  | some proof =>
    rw [hproof] at h
    obtain ⟨t, ht, h⟩ := bind_eq_ok_iff.mp h
    cases h
    simp [Part.uses_template hstatement, Part.uses_template ht]

theorem Item.uses_template {i : Item} {t : ItemTemplate} (h : i.template config = .ok t) : t.uses = i.uses := by
  match i, h with
  | .content (.library _), h => cases h; rfl
  | .content (.module _), h => cases h; rfl
  | .content (.text _), h => cases h; rfl
  | .doc _, h => cases h; rfl
  | .content (.node n), h =>
    rw [template, Node.template] at h
    cases hparts : n.partTemplates config with
    | error c => rw [hparts] at h; cases h
    | ok ts =>
      rw [hparts] at h
      cases h
      exact Node.uses_partTemplates hparts

/-! ### The names in JSON -/

namespace Json.Value

def member? (key : String) : Value → Option Value
  | object members => members.lookup key
  | _ => none

/-- The names that an array of strings lists. -/
def names : Value → List Name
  | array elements => elements.filterMap fun
    | string s => some ⟨s⟩
    | _ => none
  | _ => []

/-- The names that each part uses, according to the JSON of an item. -/
def uses (v : Value) : List (List Name) :=
  ["statement", "proof"].filterMap fun key =>
    (((v.member? "data").bind (member? key)).bind (member? "uses")).map names

theorem names_write_list (us : List Name) : ((Codec.list Name.codec).write us).names = us := by
  induction us with
  | nil => rfl
  | cons u us ih => exact congrArg (u :: ·) ih

theorem member?_uses (p : Part) :
    (Part.codec.write p).member? "uses" = some ((Codec.list Name.codec).write p.uses) := rfl

theorem member?_statement (n : Node) :
    (Node.codec.write n).member? "statement" = some (Part.codec.write n.statement) := rfl

theorem member?_proof (n : Node) :
    (Node.codec.write n).member? "proof" = some ((Codec.optional Part.codec).write n.proof) := rfl

theorem member?_data (i : Item) : i.json.member? "data" = some i.data := rfl

theorem uses_json (i : Item) : i.json.uses = i.uses := by
  have hpart (p : Part) : ((Part.codec.write p).member? "uses").map names = some p.uses := by
    rw [member?_uses, Option.map_some, names_write_list]
  rw [uses, member?_data]
  match i with
  | .content (.library _) => rfl
  | .content (.module _) => rfl
  | .content (.text _) => rfl
  | .doc _ => rfl
  | .content (.node n) =>
    simp only [Item.data, Option.bind_some, List.filterMap_cons, List.filterMap_nil, member?_statement,
      member?_proof, hpart, Item.uses, Node.parts]
    cases n.proof with
    | none => rfl
    | some proof =>
      have hproof : ((Codec.optional Part.codec).write (some proof)).member? "uses" = _ := member?_uses proof
      rw [hproof, Option.map_some, names_write_list]
      rfl

end Json.Value

/-! ### What two registries share -/

variable {module : Name} {items : List Item}

theorem LatexRenderer.inModule_eq_ok_iff {α : Type} {x : Except Error α} {a : α} :
    inModule module x = .ok a ↔ x = .ok a := by
  cases x <;> simp [inModule]

/-- A rendering that succeeds fills one template for each item. -/
theorem forall₂_moduleTemplate {ts : List (ItemTemplate × Json.Value)}
    (h : moduleTemplate config module items = .ok ts) :
    List.Forall₂ (fun i t => i.template config = .ok t.1 ∧ i.json = t.2) items ts := by
  refine (mapM_eq_ok_iff.mp h).imp fun i t ht => ?_
  rw [LatexRenderer.inModule_eq_ok_iff] at ht
  cases htemplate : i.template config with
  | error e => rw [htemplate] at ht; cases ht
  | ok u => rw [htemplate] at ht; cases ht; exact ⟨rfl, rfl⟩

theorem renderModule_eq_ok {d : RenderedModule} (h : renderModule registry config module items = .ok d) :
    ∃ ts, List.Forall₂ (fun i t => i.template config = .ok t) items ts ∧
      d = ⟨LatexRenderer.document (ts.map (ItemTemplate.fill registry.contains)),
        .array (items.map Item.json)⟩ := by
  rw [renderModule_eq_template] at h
  cases hts : moduleTemplate config module items with
  | error e => rw [hts] at h; cases h
  | ok ts =>
    rw [hts] at h
    cases h
    have hall := forall₂_moduleTemplate hts
    have htemplates : List.Forall₂ (fun i t => i.template config = .ok t) items (ts.map Prod.fst) :=
      List.forall₂_map_right_iff.mpr (hall.imp fun i t ht => ht.1)
    have hjson : items.map Item.json = ts.map Prod.snd :=
      List.forall₂_eq_eq_eq ▸ List.forall₂_map_left_iff.mpr
        (List.forall₂_map_right_iff.mpr (hall.imp fun i t ht => ht.2))
    refine ⟨ts.map Prod.fst, htemplates, ?_⟩
    rw [List.map_map, hjson]
    rfl

theorem map_fill_congr {ts : List ItemTemplate}
    (h : List.Forall₂ (fun i t => i.template config = .ok t) items ts)
    (hknown : ∀ i ∈ items, ∀ us ∈ i.uses, ∀ u ∈ us, known u = known' u) :
    ts.map (ItemTemplate.fill known) = ts.map (ItemTemplate.fill known') := by
  induction h with
  | nil => rfl
  | cons hi _ ih =>
    rw [List.forall_mem_cons] at hknown
    rw [List.map_cons, List.map_cons, ih hknown.2]
    rw [ItemTemplate.fill_congr (Item.uses_template hi ▸ hknown.1)]

theorem Item.forall_uses {P : Name → Prop}
    (h : ∀ n, .content (.node n) ∈ items → ∀ p ∈ n.parts, ∀ u ∈ p.uses, P u) :
    ∀ i ∈ items, ∀ us ∈ i.uses, ∀ u ∈ us, P u := by
  intro i hi us hus
  match i, hi, hus with
  | .content (.node n), hi, hus =>
    obtain ⟨p, hp, rfl⟩ := List.mem_map.mp hus
    exact h n hi p hp

theorem renderModule_error_congr {registry' : Registry} {e : Error}
    (h : renderModule registry config module items = .error e) :
    renderModule registry' config module items = .error e := by
  rw [renderModule_eq_template] at h ⊢
  cases hts : moduleTemplate config module items with
  | error e' => rw [hts] at h; cases h; rfl
  | ok ts => rw [hts] at h; cases h

theorem usesList_eq_nil_iff {names : List Name} : usesList names = [] ↔ names = [] := by
  cases names with
  | nil => exact iff_of_true rfl rfl
  | cons name names => exact iff_of_false nofun nofun

/-- The registry decides neither whether a module can be rendered nor what its JSON is, and its LaTeX
only by which of the names in use mean a node. For the LaTeX document has templates for its units that
come from the settings and the items, and fills them: in each part it lists the names that mean a node,
out of those that the JSON of the part lists, and writes nothing at all where no name is left. -/
theorem renderModule_sees_known_names (config : Config) (module : Name) (items : List Item) :
    (∀ r r' e, renderModule r config module items = .error e ↔ renderModule r' config module items = .error e) ∧
    (∀ r r' d d', renderModule r config module items = .ok d → renderModule r' config module items = .ok d' →
      d.json = d'.json ∧
      ((∀ n, .content (.node n) ∈ items → ∀ p ∈ n.parts, ∀ u ∈ p.uses, r.contains u = r'.contains u) →
        d.latex = d'.latex)) ∧
    (∀ r d, renderModule r config module items = .ok d →
      ∃ ts, List.Forall₂ (fun i t => i.template config = .ok t ∧ t.uses = i.json.uses) items ts ∧
        LatexRenderer.IsDocument (ts.map (ItemTemplate.fill r.contains)) d.latex ∧
        d.json = .array (items.map Item.json)) ∧
    (∀ names, usesList names = [] ↔ names = []) := by
  refine ⟨fun r r' e => ⟨renderModule_error_congr, renderModule_error_congr⟩, ?_, ?_,
    fun names => usesList_eq_nil_iff⟩
  · intro r r' d d' hd hd'
    obtain ⟨ts, hts, rfl⟩ := renderModule_eq_ok hd
    obtain ⟨ts', hts', rfl⟩ := renderModule_eq_ok hd'
    -- both runs fill the same templates, since these come from the items alone
    have heq : ts = ts' := Except.ok.inj ((mapM_eq_ok_iff.mpr hts).symm.trans (mapM_eq_ok_iff.mpr hts'))
    refine ⟨rfl, fun hknown => ?_⟩
    rw [heq, map_fill_congr hts' (Item.forall_uses hknown)]
  · intro r d hd
    obtain ⟨ts, hts, rfl⟩ := renderModule_eq_ok hd
    refine ⟨ts, hts.imp fun i t ht => ⟨ht, ?_⟩, LatexRenderer.isDocument_document _, rfl⟩
    rw [Item.uses_template ht, Json.Value.uses_json]

/-- Here `b` is a node of the unit at hand. -/
def Registry.definesB : Registry :=
  Registry.empty.register (.ofStatement ⟨"b"⟩ ⟨false, "Here.", [], "lemma"⟩)

/-- Here it is an imported one, with another text. -/
def Registry.importsB : Registry :=
  Registry.empty.importUnit ⟨"M"⟩ [.ofStatement ⟨"b"⟩ ⟨true, "There.", [⟨"c"⟩], "theorem"⟩]

def Node.usesB : Node :=
  { Node.ofStatement ⟨"a"⟩ ⟨true, "*A*", [⟨"c"⟩, ⟨"b"⟩], "theorem"⟩ with
    proof := some ⟨false, "B", [⟨"c"⟩], "proof"⟩ }

/-- The proof uses no name that means a node, and has no command. -/
theorem renderModule_sees_known_names_usesB :
    ∃ d d', renderModule .definesB .default ⟨"m"⟩ [.content (.node .usesB)] = .ok d ∧
      renderModule .importsB .default ⟨"m"⟩ [.content (.node .usesB)] = .ok d' ∧
      Registry.definesB.lookup ⟨"b"⟩ ≠ Registry.importsB.lookup ⟨"b"⟩ ∧
      d.json = d'.json ∧ d.latex = d'.latex ∧
      d'.latex = ("\\begin\x7btheorem\x7d\\leanok\x7b\x7d\\uses\x7bb\x7d\\emph\x7bA\x7d" ++
        "\\lean\x7ba\x7d\\label\x7ba\x7d\n% :\n\\end\x7btheorem\x7d\n" ++
        "\\begin\x7bproof\x7dB\n\\end\x7bproof\x7d\n").toList := by
  have hknown : ∀ n, .content (.node n) ∈ [Item.content (.node .usesB)] → ∀ p ∈ n.parts, ∀ u ∈ p.uses,
      Registry.definesB.contains u = Registry.importsB.contains u := by
    intro n hn
    obtain rfl : n = .usesB := by simpa using hn
    decide
  obtain ⟨d, hd⟩ : ∃ d, renderModule .definesB .default ⟨"m"⟩ [.content (.node .usesB)] = .ok d :=
    ⟨_, by with_unfolding_all rfl⟩
  obtain ⟨d', hd'⟩ : ∃ d, renderModule .importsB .default ⟨"m"⟩ [.content (.node .usesB)] = .ok d :=
    ⟨_, by with_unfolding_all rfl⟩
  have htext : (renderModule .importsB .default ⟨"m"⟩ [.content (.node .usesB)]).toOption.map RenderedModule.latex =
      some d'.latex := by rw [hd']; rfl
  have hsees := renderModule_sees_known_names .default ⟨"m"⟩ [.content (.node .usesB)]
  obtain ⟨hjson, hlatex⟩ := hsees.2.1 _ _ d d' hd hd'
  exact ⟨d, d', hd, hd', by decide, hjson, hlatex hknown, Option.some.inj (htext.symm.trans (by decide +kernel))⟩

end Compendium
