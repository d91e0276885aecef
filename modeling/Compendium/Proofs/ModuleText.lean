import Compendium.Proofs.Records
import Compendium.Proofs.Templates

/-!
# Documents of modules are read as they were written

An item is read from its JSON by the word for its kind, which says what its data are; a node is read
by its own codec. Since text and documentation share a word, text is read back as documentation
(`Item.asDoc`), and this is all that the JSON document of a module loses (`moduleJson_loses_kind_of_text`).
-/

namespace Compendium

/-! ### Members by name -/

namespace Json.Source

/-- What an object says under a name. -/
def memberNamed (name : String) (members : List (Quoted × Source)) : Json.Reading Source :=
  match members.find? fun m => m.1.text.toOption = some name with
  | some m => .ok m.2
  | none => Json.mismatch (.missingField name)

theorem memberNamed_eq_ok {members : List (Quoted × Source)} {ms : List (String × Value)}
    (h : DescribesMembers members ms) (hnodup : (ms.map Prod.fst).Nodup) {name : String} {v : Value}
    (hmem : (name, v) ∈ ms) : ∃ s, memberNamed name members = .ok s ∧ s.Describes v := by
  induction ms generalizing members with
  | nil => exact absurd hmem List.not_mem_nil
  | cons m ms ih =>
    obtain ⟨hname, htail⟩ := List.nodup_cons.mp hnodup
    cases h with
    | @cons key s name' v' members ms hkey hs hrest =>
      rcases List.mem_cons.mp hmem with heq | hmem
      · cases heq
        exact ⟨s, by simp [memberNamed, hkey, Except.toOption], hs⟩
      · have hne : name' ≠ name := fun heq => hname (List.mem_map.mpr ⟨_, hmem, heq.symm⟩)
        have hskip : ¬ (key.text.toOption = some name) := by simp [hkey, Except.toOption, hne]
        obtain ⟨s', hs', hdescribes⟩ := ih hrest htail hmem
        refine ⟨s', ?_, hdescribes⟩
        rw [← hs', memberNamed, List.find?_cons_of_neg (by simpa using hskip)]
        rfl

end Json.Source

/-! ### Items -/

namespace Item

def asDoc : Item → Item
  | content (.text t) => doc t
  | i => i

/-- The item that a word and its data stand for. -/
def readTagged (tag : String) (data : Json.Source) : Json.Reading Item :=
  if tag = "includeLibrary" then do return content (.library (← Name.codec.read data))
  else if tag = "includeModule" then do return content (.module (← Name.codec.read data))
  else if tag = "node" then do return content (.node (← Node.codec.read data))
  else if tag = "moduleDoc" then do return doc (← Json.Codec.string.read data)
  else Json.mismatch (.unknownVariant tag ["includeLibrary", "includeModule", "node", "moduleDoc"])

def codec : Json.Codec Item where
  write := json
  read
    | .object members .closed none => do
      let tag ← Json.Codec.string.read (← Json.Source.memberNamed "type" members)
      readTagged tag (← Json.Source.memberNamed "data" members)
    | s => s.reject "an item"

theorem json_asDoc (i : Item) : i.asDoc.json = i.json := by
  match i with
  | content (.library _) => rfl
  | content (.module _) => rfl
  | content (.node _) => rfl
  | content (.text _) => rfl
  | doc _ => rfl

theorem readTagged_data (i : Item) {s : Json.Source} (hs : s.Describes i.data) :
    readTagged i.tag s = .ok i.asDoc := by
  match i with
  | content (.library name) => exact bind_pure_of_eq_ok (Name.faithful name s hs) fun name => content (.library name)
  | content (.module name) => exact bind_pure_of_eq_ok (Name.faithful name s hs) fun name => content (.module name)
  | content (.node n) => exact bind_pure_of_eq_ok (Node.faithful n s hs) fun n => content (.node n)
  | content (.text t) => exact bind_pure_of_eq_ok (Json.Codec.Faithful.string t s hs) doc
  | doc t => exact bind_pure_of_eq_ok (Json.Codec.Faithful.string t s hs) doc

/-- The members of an item may be read in either order. -/
theorem readsAs (i : Item) : codec.ReadsAs (codec.write i) i.asDoc := by
  intro s hs
  have hwrite : codec.write i = .object [("type", .string i.tag), ("data", i.data)] := rfl
  rw [hwrite] at hs
  cases hs with
  | @object members _ ms hmembers hperm =>
    have hnodup : (ms.map Prod.fst).Nodup := by
      rw [(hperm.map Prod.fst).nodup_iff]
      show ["type", "data"].Nodup
      decide
    have hmemTag : ("type", Json.Value.string i.tag) ∈ ms := hperm.mem_iff.mpr (by simp)
    have hmemData : ("data", i.data) ∈ ms := hperm.mem_iff.mpr (by simp)
    obtain ⟨stag, htag, hstag⟩ := Json.Source.memberNamed_eq_ok hmembers hnodup hmemTag
    obtain ⟨sdata, hdata, hsdata⟩ := Json.Source.memberNamed_eq_ok hmembers hnodup hmemData
    have hread : Json.Codec.string.read stag = .ok i.tag := Json.Codec.Faithful.string _ stag hstag
    simp only [codec, htag, ok_bind, hread, hdata, readTagged_data i hsdata]

end Item

/-! ### Modules -/

theorem moduleJson_asDoc (items : List Item) : moduleJson (items.map Item.asDoc) = moduleJson items := by
  rw [moduleJson, List.map_map]
  exact congrArg Json.Value.array (List.map_congr_left fun i _ => i.json_asDoc)

theorem moduleJson_readsAs (items : List Item) :
    (Json.Codec.list Item.codec).ReadsAs (moduleJson items) (items.map Item.asDoc) := by
  refine Json.Codec.ReadsAs.list ?_
  rw [List.forall₂_map_right_iff]
  exact List.forall₂_same.mpr fun i _ => i.readsAs

theorem json_of_renderModule {registry : Registry} {config : Config} {module : Name} {items : List Item}
    {d : RenderedModule} (h : renderModule registry config module items = .ok d) : d.json = moduleJson items := by
  obtain ⟨ts, -, rfl⟩ := renderModule_eq_ok h
  rfl

/-- All items of a module are read back in their order, with text as documentation: from the JSON of
the module, whatever the order of its members, and from the text of its document. So the JSON of two
modules is the same if and only if their items differ in this respect only. -/
theorem moduleJson_loses_kind_of_text (items : List Item) :
    (Json.Codec.list Item.codec).read (.ofValue (moduleJson items)) = .ok (items.map Item.asDoc) ∧
      (Json.Codec.list Item.codec).read (.ofValue (moduleJson items).sorted) = .ok (items.map Item.asDoc) ∧
      (∀ latex, (Json.Codec.list Item.codec).readText (RenderedModule.mk latex (moduleJson items)).jsonText =
        .ok (items.map Item.asDoc)) ∧
      (∀ registry config module d, renderModule registry config module items = .ok d →
        d.json = moduleJson items) ∧
      ∀ items', moduleJson items = moduleJson items' ↔ items.map Item.asDoc = items'.map Item.asDoc := by
  have hreads := moduleJson_readsAs items
  refine ⟨hreads.read_ofValue, hreads.sorted.read_ofValue, fun _ => hreads.sorted.readText_document,
    fun _ _ _ _ hd => json_of_renderModule hd, fun items' => ⟨fun heq => ?_, fun heq => ?_⟩⟩
  · have hreads' := (moduleJson_readsAs items').read_ofValue
    rw [← heq, hreads.read_ofValue] at hreads'
    exact Except.ok.inj hreads'
  · rw [← moduleJson_asDoc items, heq, moduleJson_asDoc]

/-- Text with a control, documentation, and a node that uses a name twice and whose thread has the
highest number. -/
def Item.samples : List Item :=
  let node := Node.ofStatement ⟨"a"⟩ ⟨true, "A", [⟨"c"⟩, ⟨"c"⟩], "theorem"⟩
  [.content (.text "\x01"), .doc "\n",
    .content (.node { node with discussion := some ⟨18446744073709551615, by decide⟩, title := some "\"\\" })]

theorem moduleJson_loses_kind_of_text_samples :
    ∃ d, renderModule .empty .default ⟨"m"⟩ Item.samples = .ok d ∧ d.json = moduleJson Item.samples ∧
      (Json.Codec.list Item.codec).readText d.jsonText = .ok (Item.samples.map Item.asDoc) ∧
      Item.samples.map Item.asDoc ≠ Item.samples := by
  obtain ⟨d, hd⟩ : ∃ d, renderModule .empty .default ⟨"m"⟩ Item.samples = .ok d :=
    ⟨_, by with_unfolding_all rfl⟩
  obtain ⟨-, -, htext, hrender, -⟩ := moduleJson_loses_kind_of_text Item.samples
  have hjson : d.json = moduleJson Item.samples := hrender _ _ _ d hd
  rw [← hjson] at htext
  exact ⟨d, hd, hjson, htext d.latex, by decide⟩

end Compendium
