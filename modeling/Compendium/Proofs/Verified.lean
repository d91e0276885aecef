import Compendium.Proofs.DraftOrder

/-!
# Nodes that account for one another

By `isProved_iff_uses` a role of a constant is proved exactly if what it uses is. Without imports, what
a draft uses are the nodes of drafts before it, and these have the same standing in the registry in
the end as both roles of their constants (`verified_iff`), since no later draft of the same name can
change it. So whether a part is proved can be read off the names that are recorded with it and the
nodes that they mean.
-/

namespace Compendium

/-- `name` is a node of the unit at hand, and each of its parts is proved. -/
def Registry.Verified (r : Registry) (name : Name) : Prop :=
  ∃ n, r.own.find? name = some n ∧ ∀ p ∈ n.parts, p.leanOk = true

namespace Manifest

variable {m : Manifest} {s : Session} {k : Nat} {name : Name}

theorem exists_own_node (himports : m.imports = []) (h : Session.ofManifest m = .ok s)
    (hname : name ∈ m.drafts.map Draft.name) :
    ∃ j d', m.drafts[j]? = some d' ∧ d'.name = name ∧
      s.registry.own.find? name = some ((m.inferenceAt j).finish d') := by
  have hown : s.registry.own.find? name = Node.lastNamed m.nodes name := by
    rw [registry_of_ofManifest h, registry_eq_foldl, Registry.own_foldl_register,
      NodeTable.find?_insertAll, himports]
    exact Option.or_none
  obtain ⟨d, hd, rfl⟩ := List.mem_map.mp hname
  obtain ⟨j, hj⟩ := List.mem_iff_getElem?.mp hd
  have hmem : (m.inferenceAt j).finish d ∈ m.nodes := mem_nodes.2 ⟨j, d, hj, rfl⟩
  obtain ⟨n, hn⟩ := Option.isSome_iff_exists.mp
    (Node.isSome_lastNamed.2 ⟨_, hmem, Inference.name_finish _ _⟩)
  obtain ⟨hmem, hname⟩ := Node.mem_of_lastNamed hn
  obtain ⟨j', d', hj', rfl⟩ := mem_nodes.1 hmem
  exact ⟨j', d', hj', hname, hown.trans hn⟩

/-- The node of a drafted name is verified exactly if both roles of its constant are proved. -/
theorem verified_iff (himports : m.imports = []) (hdrafts : ∀ d ∈ m.drafts, d.Unjudged)
    (h : Session.ofManifest m = .ok s) (hname : name ∈ m.drafts.map Draft.name) (k : Nat) :
    s.registry.Verified name ↔ ∀ role, (m.inferenceAt k).isProved name role = true := by
  obtain ⟨j, d, hj, rfl, hown⟩ := exists_own_node himports h hname
  have hparts : (∀ p ∈ ((m.inferenceAt j).finish d).parts, p.leanOk = true) ↔
      ∀ role, (m.inferenceAt k).isProved d.name role = true :=
    Inference.forall_parts_leanOk (hdrafts d (List.mem_of_getElem? hj))
  rw [← hparts]
  constructor
  · rintro ⟨n, hn, hok⟩
    rw [hown, Option.some.injEq] at hn
    exact hn ▸ hok
  · exact fun hok => ⟨_, hown, hok⟩

/-- One role of a draft accounts for what it uses. -/
theorem isProved_iff_verified (himports : m.imports = []) (hdrafts : ∀ d ∈ m.drafts, d.Unjudged)
    (h : Session.ofManifest m = .ok s) (hc : m.graph.contains name = true) (role : Role) :
    (m.inferenceAt k).isProved name role = true ↔
      m.config.sorryMarker ∉ (m.inferenceAt k).uses name role ∧
        ∀ u ∈ (m.inferenceAt k).uses name role, u ≠ m.config.sorryMarker → s.registry.Verified u := by
  have hv : name ∈ m.graph.vertices := by simpa [ConstantGraph.contains] using hc
  rw [Inference.isProved_iff_uses (ConstantGraph.closed_ofConstants m.constants) hv]
  refine and_congr_right fun _ => forall_congr' fun u => forall_congr' fun hu => forall_congr' fun hne => ?_
  have hbefore : m.DraftedBefore k u := by
    refine (imports_or_draftedBefore hu hne).2.resolve_left ?_
    simp [Imports, himports]
  have hname : u ∈ m.drafts.map Draft.name := by
    obtain ⟨d, hd, rfl⟩ := List.mem_map.mp hbefore
    exact List.mem_map_of_mem (List.mem_of_mem_take hd)
  exact (verified_iff himports hdrafts h hname k).symm

/-- Without imports and the author's word, a part of a node whose constant is known is proved exactly
if the marker is not among the names inferred for it and every other one of them is a node that is
proved in all its parts when everything is loaded. -/
theorem leanOk_iff_uses_verified (m : Manifest) (s : Session) (himports : m.imports = [])
    (hdrafts : ∀ d ∈ m.drafts, d.Unjudged) (h : Session.ofManifest m = .ok s) (k : Nat) (d : Draft)
    (n : Node) (hd : m.drafts[k]? = some d) (hn : m.nodes[k]? = some n)
    (hc : m.graph.contains d.name = true) :
    (n.statement.leanOk = true ↔
      m.config.sorryMarker ∉ (m.inferenceAt k).usesOf d.name d.statementRoles ∧
        ∀ u ∈ (m.inferenceAt k).usesOf d.name d.statementRoles, u ≠ m.config.sorryMarker →
          s.registry.Verified u) ∧
    ∀ p, n.proof = some p →
      (p.leanOk = true ↔
        m.config.sorryMarker ∉ (m.inferenceAt k).uses d.name .value ∧
          ∀ u ∈ (m.inferenceAt k).uses d.name .value, u ≠ m.config.sorryMarker →
            s.registry.Verified u) := by
  rw [getElem?_nodes, hd, Option.map_some, Option.some.injEq] at hn
  subst hn
  have hun := hdrafts d (List.mem_of_getElem? hd)
  have hrole := isProved_iff_verified (k := k) himports hdrafts h hc
  refine ⟨?_, fun p hp => ?_⟩
  · rw [Inference.statement_leanOk hun]
    simp only [hrole, Inference.usesOf, List.mem_flatMap]
    constructor
    · intro hall
      refine ⟨?_, ?_⟩
      · rintro ⟨role, hmem, hu⟩
        exact (hall role hmem).1 hu
      · rintro u ⟨role, hmem, hu⟩
        exact (hall role hmem).2 u hu
    · rintro ⟨hm, hall⟩ role hmem
      exact ⟨fun hu => hm ⟨role, hmem, hu⟩, fun u hu => hall u ⟨role, hmem, hu⟩⟩
  · rw [Inference.proof_leanOk hun hp]
    exact hrole .value

theorem leanOk_iff_uses_verified_circle :
    ∃ s n p, circle.imports = [] ∧ (∀ d ∈ circle.drafts, d.Unjudged) ∧
      Session.ofManifest circle = .ok s ∧ circle.nodes[2]? = some n ∧ n.proof = some p ∧
      circle.graph.contains ⟨"gap"⟩ = true ∧ n.statement.leanOk = true ∧ p.leanOk = false := by
  have hun : ∀ d ∈ circle.drafts, d.Unjudged := by
    simp [circle, Draft.Unjudged, Draft.ofName, PartDraft.empty]
  have hs : Session.ofManifest circle = .ok ⟨.default, circle.registry, .empty⟩ := rfl
  obtain ⟨hstatement, hproof⟩ := leanOk_iff_uses_verified circle _ rfl hun hs 2 _ _ rfl rfl (by decide)
  refine ⟨_, _, _, rfl, hun, hs, rfl, rfl, by decide, hstatement.2 ?_, ?_⟩
  · have huses : (circle.inferenceAt 2).usesOf ⟨"gap"⟩ [.type] = [⟨"odd"⟩] := by decide +kernel
    show _ ∉ (circle.inferenceAt 2).usesOf ⟨"gap"⟩ [.type] ∧
      ∀ u ∈ (circle.inferenceAt 2).usesOf ⟨"gap"⟩ [.type], _
    rw [huses]
    refine ⟨by decide, fun u hu _ => ?_⟩
    rw [List.mem_singleton.mp hu, verified_iff rfl hun hs (by decide) 2]
    intro role
    cases role <;> decide +kernel
  · have huses : (circle.inferenceAt 2).uses ⟨"gap"⟩ .value = [⟨"sorryAx"⟩] := by decide +kernel
    refine Bool.eq_false_iff.2 fun hok => ((hproof _ rfl).1 hok).1 ?_
    show _ ∈ (circle.inferenceAt 2).uses ⟨"gap"⟩ .value
    rw [huses]
    exact List.mem_singleton_self _

end Manifest

end Compendium
