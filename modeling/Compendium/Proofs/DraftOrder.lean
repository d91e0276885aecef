import Compendium.Proofs.Registry
import Compendium.Proofs.Status

/-!
# Drafts in their order

The drafts of a manifest become nodes one after the other, and each is registered before the next one
comes up. `registryBefore k` is what the draft at `k` finds. It enters into the node only by the names
that mean something there (`Inference.finish_congr`), and these are the names that are imported and
those of the drafts before (`contains_registryBefore`). So the order of the drafts is an order of the
nodes by what they use, whatever circles there are among the constants.
-/

namespace Compendium

namespace Inference

variable {i j : Inference} {name : Name} {role : Role}

/-- Only the names that mean a node count of a registry. -/
theorem uses_congr (hg : i.constants = j.constants) (hm : i.marker = j.marker)
    (hr : ∀ name, i.registry.contains name = j.registry.contains name) :
    i.uses name role = j.uses name role := by
  unfold uses
  simp only [hg, hm, hr]

theorem isProved_congr (hg : i.constants = j.constants) (hm : i.marker = j.marker) :
    i.isProved name role = j.isProved name role := by
  unfold isProved
  rw [hg, hm]

theorem finish_congr (hg : i.constants = j.constants) (hm : i.marker = j.marker)
    (hr : ∀ name, i.registry.contains name = j.registry.contains name) (d : Draft) :
    i.finish d = j.finish d := by
  unfold finish finishParts proofUses
  simp only [uses_congr hg hm hr, isProved_congr hg hm, hm]

end Inference

namespace Manifest

variable {m : Manifest} {s : Session} {k : Nat} {d : Draft} {n : Node} {name u : Name} {role : Role}

def graph (m : Manifest) : ConstantGraph := .ofConstants m.constants

/-- The registry when the draft at `k` comes up. -/
def registryBefore (m : Manifest) (k : Nat) : Registry :=
  Session.addDrafts m.graph m.config.sorryMarker (m.drafts.take k) (Session.importAll m.imports)

/-- The registry after all imports and all drafts. -/
def registry (m : Manifest) : Registry := m.registryBefore m.drafts.length

/-- What is known when the draft at `k` comes up. -/
def inferenceAt (m : Manifest) (k : Nat) : Inference :=
  ⟨m.graph, m.registryBefore k, m.config.sorryMarker⟩

/-- The nodes that the drafts become, in their order. -/
def nodes (m : Manifest) : List Node :=
  m.drafts.mapIdx fun k d => (m.inferenceAt k).finish d

/-- `name` is the name of an imported node. -/
def Imports (m : Manifest) (name : Name) : Prop := ∃ i ∈ m.imports, ∃ n ∈ i.nodes, n.name = name

/-- `name` is the name of a draft before the one at `k`. -/
def DraftedBefore (m : Manifest) (k : Nat) (name : Name) : Prop :=
  name ∈ (m.drafts.take k).map Draft.name

/-- A draft of the name `n` uses the node of the draft `u`, as its constant shows. -/
def Infers (m : Manifest) (n u : Name) : Prop :=
  ∃ k d role, m.drafts[k]? = some d ∧ d.name = n ∧ u ∈ (m.inferenceAt k).uses n role ∧
    u ≠ m.config.sorryMarker ∧ u ∈ m.drafts.map Draft.name

theorem getElem?_nodes : m.nodes[k]? = m.drafts[k]?.map (m.inferenceAt k).finish := by
  simp [nodes]

theorem mem_nodes : n ∈ m.nodes ↔ ∃ k d, m.drafts[k]? = some d ∧ (m.inferenceAt k).finish d = n := by
  simp [List.mem_iff_getElem?, getElem?_nodes]

/-! ### What a draft finds -/

theorem registryBefore_succ (hd : m.drafts[k]? = some d) :
    m.registryBefore (k + 1) = (m.registryBefore k).register ((m.inferenceAt k).finish d) := by
  unfold registryBefore Session.addDrafts
  rw [List.take_add_one, hd, Option.toList_some, List.foldl_append]
  rfl

theorem contains_registryBefore :
    (m.registryBefore k).contains name = true ↔ m.Imports name ∨ m.DraftedBefore k name := by
  induction k with
  | zero =>
    show ((Session.importAll m.imports).lookup name).isSome = true ↔ _
    rw [Session.lookup_importAll, ImportedUnit.isSome_lookup]
    simp [Imports, DraftedBefore]
  | succ k ih =>
    cases hd : m.drafts[k]? with
    | none =>
      have hlen := List.getElem?_eq_none_iff.mp hd
      have htake : m.drafts.take (k + 1) = m.drafts.take k := by
        rw [List.take_of_length_le (by omega), List.take_of_length_le hlen]
      simpa [registryBefore, DraftedBefore, htake] using ih
    | some d =>
      rw [registryBefore_succ hd, Registry.contains_register, ih, Inference.name_finish]
      simp [DraftedBefore, List.take_add_one, hd, or_assoc, eq_comm]

theorem registryBefore_eq (k : Nat) :
    m.registryBefore k = (m.nodes.take k).foldl Registry.register (Session.importAll m.imports) := by
  induction k with
  | zero => rfl
  | succ k ih =>
    cases hd : m.drafts[k]? with
    | none =>
      have hlen := List.getElem?_eq_none_iff.mp hd
      have hlen' : m.nodes.length ≤ k := by simpa [nodes] using hlen
      rw [List.take_of_length_le hlen'] at ih
      rw [List.take_of_length_le (by omega), ← ih, registryBefore, registryBefore,
        List.take_of_length_le (by omega), List.take_of_length_le hlen]
    | some d =>
      have hn : m.nodes[k]? = some ((m.inferenceAt k).finish d) := by rw [getElem?_nodes, hd]; rfl
      rw [registryBefore_succ hd, ih, List.take_add_one, hn, Option.toList_some, List.foldl_append]
      rfl

theorem node_congr {m' : Manifest} {k' : Nat} (hc : m.constants = m'.constants)
    (hm : m.config.sorryMarker = m'.config.sorryMarker) (hi : ∀ name, m.Imports name ↔ m'.Imports name)
    (hb : ∀ name, m.DraftedBefore k name ↔ m'.DraftedBefore k' name) :
    (m.inferenceAt k).finish d = (m'.inferenceAt k').finish d ∧
      ∀ role, (m.inferenceAt k).uses d.name role = (m'.inferenceAt k').uses d.name role := by
  have hg : m.graph = m'.graph := congrArg ConstantGraph.ofConstants hc
  have hr : ∀ name, (m.registryBefore k).contains name = (m'.registryBefore k').contains name := by
    intro name
    rw [Bool.eq_iff_iff, contains_registryBefore, contains_registryBefore, hi, hb]
  exact ⟨Inference.finish_congr hg hm hr d, fun _ => Inference.uses_congr hg hm hr⟩

theorem imports_or_draftedBefore (hu : u ∈ (m.inferenceAt k).uses name role)
    (hne : u ≠ m.config.sorryMarker) : u ≠ name ∧ (m.Imports u ∨ m.DraftedBefore k u) := by
  rcases (Inference.mem_uses.1 hu).1 with heq | ⟨hname, hc⟩
  · exact absurd heq hne
  · exact ⟨hname, contains_registryBefore.1 hc⟩

/-! ### The order of the nodes -/

theorem Infers.idxOf_lt (hnd : (m.drafts.map Draft.name).Nodup)
    (himp : ∀ d ∈ m.drafts, ¬ m.Imports d.name) (h : m.Infers name u) :
    (m.drafts.map Draft.name).idxOf u < (m.drafts.map Draft.name).idxOf name := by
  obtain ⟨k, d, role, hd, rfl, hu, hne, hmem⟩ := h
  obtain ⟨d', hd', rfl⟩ := List.mem_map.mp hmem
  have hbefore := (imports_or_draftedBefore hu hne).2.resolve_left (himp d' hd')
  rw [DraftedBefore, List.map_take] at hbefore
  obtain ⟨hk, hget⟩ := List.getElem?_eq_some_iff.mp hd
  have hname : (m.drafts.map Draft.name).idxOf d.name = k := by
    have hk' : k < (m.drafts.map Draft.name).length := by simpa using hk
    have := hnd.idxOf_getElem k hk'
    rwa [List.getElem_map, hget] at this
  have hu' : (m.drafts.map Draft.name).idxOf d'.name =
      ((m.drafts.map Draft.name).take k).idxOf d'.name := by
    conv_lhs => rw [← List.take_append_drop k (m.drafts.map Draft.name)]
    exact List.idxOf_append_of_mem hbefore
  have hlt := List.idxOf_lt_length_of_mem hbefore
  rw [List.length_take] at hlt
  omega

theorem not_infers_self (hnd : (m.drafts.map Draft.name).Nodup)
    (himp : ∀ d ∈ m.drafts, ¬ m.Imports d.name) (name : Name) :
    ¬ Relation.TransGen m.Infers name name := by
  have hlt : ∀ u, Relation.TransGen m.Infers name u →
      (m.drafts.map Draft.name).idxOf u < (m.drafts.map Draft.name).idxOf name := by
    intro u hu
    induction hu with
    | single h => exact h.idxOf_lt hnd himp
    | tail _ h ih => exact Nat.lt_trans (h.idxOf_lt hnd himp) ih
  exact fun h => Nat.lt_irrefl _ (hlt name h)

/-! ### The registry in the end -/

theorem registry_eq_foldl :
    m.registry = m.nodes.foldl Registry.register (Session.importAll m.imports) := by
  have hlen : m.nodes.length ≤ m.drafts.length := by simp [nodes]
  rw [registry, registryBefore_eq, List.take_of_length_le hlen]

theorem ofManifest_eq (m : Manifest) :
    Session.ofManifest m = m.modules.foldlM (Session.addModule m.registry) .empty >>= fun store =>
      .ok ⟨m.config, m.registry, store⟩ := by
  rw [registry, registryBefore, List.take_length]
  rfl

theorem registry_of_ofManifest (h : Session.ofManifest m = .ok s) : s.registry = m.registry := by
  rw [ofManifest_eq] at h
  cases hstore : m.modules.foldlM (Session.addModule m.registry) .empty with
  | error e => rw [hstore] at h; cases h
  | ok store => rw [hstore] at h; cases h; rfl

theorem lookup_of_last (h : Session.ofManifest m = .ok s) (hd : m.drafts[k]? = some d)
    (hlast : ∀ j d', k < j → m.drafts[j]? = some d' → d'.name ≠ d.name) :
    s.registry.lookup d.name = m.nodes[k]? := by
  have hn : m.nodes[k]? = some ((m.inferenceAt k).finish d) := by rw [getElem?_nodes, hd]; rfl
  have hnodes : ∀ j n', k < j → m.nodes[j]? = some n' → n'.name ≠ ((m.inferenceAt k).finish d).name := by
    intro j n' hj hn'
    rw [getElem?_nodes] at hn'
    obtain ⟨d', hd', rfl⟩ := Option.map_eq_some_iff.mp hn'
    exact hlast j d' hj hd'
  have hlook := Node.lastNamed_of_getElem? hn hnodes
  rw [Inference.name_finish] at hlook
  rw [registry_of_ofManifest h, registry_eq_foldl, Registry.lookup_foldl_register, hlook, hn]
  rfl

/-- What the node of a draft is taken from, and what the nodes use among one another: the draft at
`k`, the constants, the marker, the imported names and the names of the drafts before it settle the
node and what it infers; what it infers is imported or drafted before, or the marker, and is not
itself; so drafts with names of their own use one another without circles; and in the end a name of
drafts means the node of the last one. -/
theorem nodes_follow_draft_order (m : Manifest) :
    (∀ (m' : Manifest) (k k' : Nat) (d : Draft), m.drafts[k]? = some d → m'.drafts[k']? = some d →
      m.constants = m'.constants → m.config.sorryMarker = m'.config.sorryMarker →
      (∀ name, m.Imports name ↔ m'.Imports name) →
      (∀ name, m.DraftedBefore k name ↔ m'.DraftedBefore k' name) →
        m.nodes[k]? = m'.nodes[k']? ∧
          ∀ role, (m.inferenceAt k).uses d.name role = (m'.inferenceAt k').uses d.name role) ∧
    (∀ (k : Nat) (d : Draft) (role : Role) (u : Name), m.drafts[k]? = some d →
      u ∈ (m.inferenceAt k).uses d.name role → u ≠ m.config.sorryMarker →
        u ≠ d.name ∧ (m.Imports u ∨ m.DraftedBefore k u)) ∧
    ((m.drafts.map Draft.name).Nodup → (∀ d ∈ m.drafts, ¬ m.Imports d.name) →
      ∀ name, ¬ Relation.TransGen m.Infers name name) ∧
    (∀ s, Session.ofManifest m = .ok s →
      s.registry = m.nodes.foldl Registry.register (Session.importAll m.imports) ∧
      ∀ (k : Nat) (d : Draft), m.drafts[k]? = some d →
        (∀ j d', k < j → m.drafts[j]? = some d' → d'.name ≠ d.name) →
          s.registry.lookup d.name = m.nodes[k]?) := by
  refine ⟨?_, ?_, not_infers_self, ?_⟩
  · intro m' k k' d hd hd' hc hm hi hb
    rw [getElem?_nodes, getElem?_nodes, hd, hd']
    obtain ⟨hnode, huses⟩ := node_congr (d := d) hc hm hi hb
    exact ⟨congrArg some hnode, huses⟩
  · intro k d role u _ hu hne
    exact imports_or_draftedBefore hu hne
  · intro s hs
    exact ⟨(registry_of_ofManifest hs).trans registry_eq_foldl, fun k d hd hlast => lookup_of_last hs hd hlast⟩

/-- Two constants that mention each other, and a third one with a gap in its proof. -/
def circle : Manifest where
  config := .default
  constants := [
    ⟨⟨"even"⟩, [⟨"odd"⟩], []⟩, ⟨⟨"odd"⟩, [⟨"even"⟩], []⟩, ⟨⟨"gap"⟩, [⟨"odd"⟩], [⟨"sorryAx"⟩]⟩]
  imports := []
  drafts := [.ofName ⟨"even"⟩, .ofName ⟨"odd"⟩, { Draft.ofName ⟨"gap"⟩ with proof := some .empty }]
  modules := []

theorem nodes_follow_draft_order_circle :
    circle.graph.Edge ⟨"even"⟩ ⟨"odd"⟩ ∧ circle.graph.Edge ⟨"odd"⟩ ⟨"even"⟩ ∧
      circle.Infers ⟨"odd"⟩ ⟨"even"⟩ ∧ (circle.drafts.map Draft.name).Nodup ∧
      (∀ d ∈ circle.drafts, ¬ circle.Imports d.name) ∧
      ∀ name, ¬ Relation.TransGen circle.Infers name name := by
  have huses : (circle.inferenceAt 1).uses ⟨"odd"⟩ .type = [⟨"even"⟩] := by decide +kernel
  have hinfers : circle.Infers ⟨"odd"⟩ ⟨"even"⟩ :=
    ⟨1, _, .type, rfl, rfl, huses ▸ List.mem_singleton_self _, by decide, by decide⟩
  have hnd : (circle.drafts.map Draft.name).Nodup := by decide
  have himp : ∀ d ∈ circle.drafts, ¬ circle.Imports d.name := by simp [circle, Imports]
  exact ⟨by unfold ConstantGraph.Edge; decide, by unfold ConstantGraph.Edge; decide, hinfers, hnd, himp,
    (nodes_follow_draft_order circle).2.2.1 hnd himp⟩

end Manifest

end Compendium
