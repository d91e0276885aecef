import Compendium.Proofs.Loading
import Compendium.Proofs.Outcome

/-!
# Nodes that use a name more than once

What a draft becomes uses each name at most once in each part, since its names are put together by
`Name.distinct`. A node of another unit comes as it was written. So all nodes of a session use their
names once exactly if the imported nodes that can still be found do so (`usesOnce_iff`).
-/

namespace Compendium
open Node ImportedUnit

/-- No part uses a name more than once. -/
def Node.UsesOnce (n : Node) : Prop := ∀ p ∈ n.parts, p.uses.Nodup

instance (n : Node) : Decidable n.UsesOnce := inferInstanceAs (Decidable (∀ p ∈ n.parts, _))

/-- The nodes that can be had from a session: by name, by unit and name, and out of a module. -/
inductive Session.Shows (s : Session) (n : Node) : Prop where
  | lookup (name : Name) (h : s.registry.lookup name = some n)
  | lookupIn (unit name : Name) (h : s.registry.lookupIn unit name = some n)
  | item (module : Name) (items : List Item) (h : s.items module = .ok items)
      (hn : .content (.node n) ∈ items)

/-! ### Drafts -/

namespace Inference

variable {i : Inference} {d : Draft}

theorem nodup_proofUses (statementUses names : List Name) : (i.proofUses statementUses names).Nodup :=
  (Name.nodup_distinct names).filter _

theorem usesOnce_finish (i : Inference) (d : Draft) : (i.finish d).UsesOnce := by
  intro p hp
  cases hproof : d.proof with
  | none =>
    simp only [finish, finishParts, hproof, parts, Option.toList_none, List.mem_singleton] at hp
    rw [hp]
    exact Name.nodup_distinct _
  | some proof =>
    simp only [finish, finishParts, hproof, parts, Option.toList_some, List.mem_cons, List.not_mem_nil,
      or_false] at hp
    rcases hp with rfl | rfl
    · exact Name.nodup_distinct _
    · exact nodup_proofUses _ _

end Inference

/-! ### Imports -/

namespace ImportedUnit

variable {imports : List ImportedUnit} {unit name : Name} {n : Node}

theorem exists_mem_of_mem_nodesOf (h : n ∈ nodesOf imports unit) : ∃ i ∈ imports, n ∈ i.nodes := by
  obtain ⟨i, hi, hn⟩ := List.mem_flatMap.mp h
  exact ⟨i, (List.mem_filter.mp hi).1, hn⟩

theorem exists_unit_of_lookup (h : ImportedUnit.lookup imports name = some n) :
    ∃ unit, lastNamed (nodesOf imports unit) name = some n := by
  obtain ⟨unit, -, hn⟩ := List.exists_of_findSome?_eq_some h
  exact ⟨unit, hn⟩

end ImportedUnit

/-! ### Sessions -/

namespace Manifest

variable {m : Manifest} {s : Session} {n : Node} {unit name : Name}

theorem usesOnce_of_mem_nodes (h : n ∈ m.nodes) : n.UsesOnce := by
  obtain ⟨k, d, -, rfl⟩ := mem_nodes.1 h
  exact Inference.usesOnce_finish _ d

theorem lookupIn_registry (unit name : Name) :
    m.registry.lookupIn unit name = lastNamed (nodesOf m.imports unit) name := by
  rw [registry_eq_foldl, Registry.lookupIn_foldl_register, Session.lookupIn_importAll]

/-- An entry of a node holds what its name means. -/
theorem exists_lookup_of_entry {r : Registry} {es : List EntryRecord} {xs : List Entry} {x : Entry}
    (h : List.Forall₂ (EntryRecord.RecordedAs r) es xs) (hx : x ∈ xs) (hn : x.content = .node n) :
    ∃ name, r.lookup name = some n := by
  induction h with
  | nil => exact absurd hx List.not_mem_nil
  | @cons e y es xs hrecorded _ ih =>
    rcases List.mem_cons.mp hx with rfl | hx
    · obtain ⟨-, hcontent⟩ := hrecorded
      rw [hn] at hcontent
      split at hcontent
      · cases hcontent
      · cases hcontent
      · obtain ⟨n', hn', heq⟩ := hcontent
        cases heq
        exact ⟨_, hn'⟩
      · cases hcontent
    · exact ih hx

theorem exists_lookup_of_item {module : Name} {items : List Item} (hs : m.LoadedAs s)
    (h : s.items module = .ok items) (hn : .content (.node n) ∈ items) :
    ∃ name, s.registry.lookup name = some n := by
  obtain ⟨c, hc, hitems⟩ := bind_eq_ok_iff.mp (show s.store.contents module >>= _ = _ from h)
  cases hitems
  have hmodule : module ∈ s.store.names := by
    rw [Store.names, ← Keyed.isSome_find?_iff]
    unfold Store.contents at hc
    cases hfind : s.store.modules.find? module with
    | none => rw [hfind] at hc; cases hc
    | some c => rfl
  rw [hs.names] at hmodule
  obtain ⟨r, hr, rfl⟩ := List.mem_map.mp hmodule
  obtain ⟨c', hc', hloaded⟩ := hs.contents r hr
  obtain rfl : c' = c := Except.ok.inj (hc'.symm.trans hc)
  -- the order of the items does not matter here, and docs are no nodes
  obtain ⟨⟨position, i⟩, hi, rfl⟩ := List.mem_map.mp hn
  rw [List.mem_mergeSort, Contents.positioned, List.mem_append] at hi
  rcases hi with hi | hi
  · obtain ⟨e, he, heq⟩ := List.mem_map.mp hi
    exact exists_lookup_of_entry hloaded.entries he (Item.content.inj (congrArg Prod.snd heq))
  · obtain ⟨d, -, heq⟩ := List.mem_map.mp hi
    cases heq

/-- A node of a session was drafted, or it is what a unit has under its name. -/
theorem drafted_or_imported (hs : Session.ofManifest m = .ok s) (h : s.Shows n) :
    n ∈ m.nodes ∨ ∃ unit name, lastNamed (nodesOf m.imports unit) name = some n := by
  obtain ⟨-, hloaded⟩ := (ofManifest_yields m).of_eq_ok hs
  have hlookup (name : Name) (hn : s.registry.lookup name = some n) :
      n ∈ m.nodes ∨ ∃ unit name, lastNamed (nodesOf m.imports unit) name = some n := by
    rw [hloaded.lookup, Option.or_eq_some_iff] at hn
    rcases hn with hn | ⟨-, hn⟩
    · exact Or.inl (mem_of_lastNamed hn).1
    · obtain ⟨unit, hunit⟩ := exists_unit_of_lookup hn
      exact Or.inr ⟨unit, name, hunit⟩
  cases h with
  | lookup name hn => exact hlookup name hn
  | lookupIn unit name hn =>
    rw [registry_of_ofManifest hs, lookupIn_registry] at hn
    exact Or.inr ⟨unit, name, hn⟩
  | item module items hitems hn =>
    obtain ⟨name, hn⟩ := exists_lookup_of_item hloaded hitems hn
    exact hlookup name hn

end Manifest

namespace Session

/-- For a text that makes a session: each node that the session shows was drafted, and then uses its
names once, or it is a node of an import as the text has it. So all of them use their names once
exactly if, in each unit, the last node of each name does. -/
theorem usesOnce_unless_imported (text : String) (s : Session) (h : ofText text = .ok s) :
    ∃ m, Manifest.ofText text = .ok m ∧ ofManifest m = .ok s ∧
      (∀ n, s.Shows n → n ∈ m.nodes ∧ n.UsesOnce ∨ ∃ i ∈ m.imports, n ∈ i.nodes) ∧
      ((∀ n, s.Shows n → n.UsesOnce) ↔
        ∀ unit name n, lastNamed (nodesOf m.imports unit) name = some n → n.UsesOnce) := by
  obtain ⟨m, hm, hs⟩ := bind_eq_ok_iff.mp (show Manifest.ofText text >>= ofManifest = .ok s from h)
  refine ⟨m, hm, hs, fun n hn => ?_, fun hall unit name n hn => ?_, fun hall n hn => ?_⟩
  · rcases Manifest.drafted_or_imported hs hn with hdrafted | ⟨unit, name, himported⟩
    · exact Or.inl ⟨hdrafted, Manifest.usesOnce_of_mem_nodes hdrafted⟩
    · exact Or.inr (exists_mem_of_mem_nodesOf (mem_of_lastNamed himported).1)
  · refine hall n (.lookupIn unit name ?_)
    rw [Manifest.registry_of_ofManifest hs, Manifest.lookupIn_registry, hn]
  · rcases Manifest.drafted_or_imported hs hn with hdrafted | ⟨unit, name, himported⟩
    · exact Manifest.usesOnce_of_mem_nodes hdrafted
    · exact hall unit name n himported

/-- A unit with a node that uses a name twice. -/
def repeatingText : String :=
  "\x7b\"imports\":[\x7b\"unit\":\"U\",\"nodes\":[" ++
    "\x7b\"name\":\"x\",\"statement\":\x7b\"text\":\"\",\"uses\":[\"a\",\"a\"],\"latexEnv\":\"lemma\"\x7d\x7d" ++
    "]\x7d]\x7d"

/-- The same, with a second node of the name that uses it once. -/
def correctedText : String :=
  "\x7b\"imports\":[\x7b\"unit\":\"U\",\"nodes\":[" ++
    "\x7b\"name\":\"x\",\"statement\":\x7b\"text\":\"\",\"uses\":[\"a\",\"a\"],\"latexEnv\":\"lemma\"\x7d\x7d," ++
    "\x7b\"name\":\"x\",\"statement\":\x7b\"text\":\"\",\"uses\":[\"a\"],\"latexEnv\":\"lemma\"\x7d\x7d" ++
    "]\x7d]\x7d"

def lemmaUsing (names : List Name) : Node := .ofStatement ⟨"x"⟩ ⟨false, "", names, "lemma"⟩

def importing (imports : List ImportedUnit) : Manifest := { Manifest.empty with imports }

theorem ofText_of_importing {text : String} {imports : List ImportedUnit}
    (h : Manifest.ofText text = .ok (importing imports)) :
    ofText text = .ok ⟨.default, importAll imports, .empty⟩ := by
  show Manifest.ofText text >>= ofManifest = _
  rw [h]
  rfl

theorem usesOnce_unless_imported_corrected :
    ∃ s, ofText correctedText = .ok s ∧ s.registry.lookup ⟨"x"⟩ = some (lemmaUsing [⟨"a"⟩]) ∧
      ∀ n, s.Shows n → n.UsesOnce := by
  have hm : Manifest.ofText correctedText = .ok (importing
      [⟨⟨"U"⟩, [lemmaUsing [⟨"a"⟩, ⟨"a"⟩], lemmaUsing [⟨"a"⟩]]⟩]) := by decide +kernel
  obtain ⟨m, hm', -, -, hiff⟩ := usesOnce_unless_imported correctedText _ (ofText_of_importing hm)
  obtain rfl := Except.ok.inj (hm.symm.trans hm')
  refine ⟨_, ofText_of_importing hm, by decide, hiff.mpr fun unit name n hn => ?_⟩
  obtain ⟨hmem, rfl⟩ := mem_of_lastNamed hn
  by_cases hunit : unit = ⟨"U"⟩
  · subst hunit
    have hname : n.name = ⟨"x"⟩ := by
      rcases List.mem_pair.mp hmem with rfl | rfl <;> rfl
    rw [hname] at hn
    obtain rfl : lemmaUsing [⟨"a"⟩] = n := Option.some.inj hn
    decide
  · have hnone : nodesOf (importing
        [⟨⟨"U"⟩, [lemmaUsing [⟨"a"⟩, ⟨"a"⟩], lemmaUsing [⟨"a"⟩]]⟩]).imports unit = [] := by
      simp [nodesOf, importing, Ne.symm hunit]
    rw [hnone] at hmem
    exact absurd hmem List.not_mem_nil

/-- An imported node uses a name twice if the text says so. -/
theorem shows_repeating :
    ∃ s n, ofText repeatingText = .ok s ∧ s.Shows n ∧ ¬ n.UsesOnce := by
  have hm : Manifest.ofText repeatingText =
      .ok (importing [⟨⟨"U"⟩, [lemmaUsing [⟨"a"⟩, ⟨"a"⟩]]⟩]) := by decide +kernel
  exact ⟨_, lemmaUsing [⟨"a"⟩, ⟨"a"⟩], ofText_of_importing hm, .lookup ⟨"x"⟩ (by decide), by decide⟩

end Session

end Compendium
