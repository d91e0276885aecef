import Compendium.Inference
import Compendium.Proofs.Constants

/-!
# What is proved

A role of a constant is proved if the constant is in the graph and no path leads from what the role
mentions to the marker (`isProved_iff`). The search for uses stops much earlier, but nothing is lost
by that: the role is proved exactly if the marker is not among the names it uses and every role of
every other one is proved (`isProved_iff_uses`), also where constants mention one another in circles.

A constant that others only mention is in the graph as well, with no mentions of its own. So it
counts as proved, and `leanOk` tells of a name that no constant has only whether it is mentioned.
-/

namespace Compendium

namespace Draft

/-- The author leaves it to the constants whether the parts are proved. -/
def Unjudged (d : Draft) : Prop := d.statement.leanOk = none ∧ ∀ p ∈ d.proof, p.leanOk = none

/-- The roles of the constant that the statement of a draft stands for. -/
def statementRoles (d : Draft) : List Role :=
  match d.proof with
  | some _ => [.type]
  | none => [.type, .value]

theorem type_mem_statementRoles (d : Draft) : .type ∈ d.statementRoles := by
  unfold statementRoles
  split
  · exact List.mem_singleton_self _
  · exact List.mem_cons_self ..

def ofName (name : Name) : Draft :=
  ⟨name, .empty, none, false, none, none, none, none⟩

theorem unjudged_ofName (name : Name) : (ofName name).Unjudged :=
  ⟨rfl, fun _ h => nomatch h⟩

end Draft

namespace Inference
open ConstantGraph Relation

variable {i : Inference} {d : Draft} {p : Part} {name u : Name} {role : Role}

def usesOf (i : Inference) (name : Name) (roles : List Role) : List Name :=
  roles.flatMap (i.uses name)

/-- Where the search for the uses of `name` stops. -/
def stops (i : Inference) (name : Name) : Name → Bool :=
  stopsAt (fun used => used ≠ name && i.registry.contains used) i.marker

theorem mem_uses :
    u ∈ i.uses name role ↔
      (u = i.marker ∨ u ≠ name ∧ i.registry.contains u = true) ∧
        ∃ s ∈ i.constants.directDeps role name, i.constants.OpenLeads (i.stops name) s u := by
  unfold uses
  rw [mem_collectUses]
  simp [stops]

theorem mem_vertices_of_mem_uses (hg : i.constants.Closed) (h : u ∈ i.uses name role) :
    u ∈ i.constants.vertices := by
  obtain ⟨-, s, hs, hsu⟩ := mem_uses.1 h
  exact hg.mem_of_leads (hg _ _ (edge_of_mem_directDeps hs)) hsu.leads

/-! ### Roles -/

theorem isProved_iff (hg : i.constants.Closed) :
    i.isProved name role = true ↔
      name ∈ i.constants.vertices ∧
        ¬ ∃ s ∈ i.constants.directDeps role name, i.constants.Leads s i.marker := by
  have hreach : i.constants.reaches (i.constants.directDeps role name) i.marker = true ↔
      ∃ s ∈ i.constants.directDeps role name, i.constants.Leads s i.marker := by
    rw [reaches_iff]
    constructor
    · rintro ⟨-, s, hs, -, hsm⟩
      exact ⟨s, hs, hsm⟩
    · rintro ⟨s, hs, hsm⟩
      have hv : s ∈ i.constants.vertices := hg _ _ (edge_of_mem_directDeps hs)
      exact ⟨hg.mem_of_leads hv hsm, s, hs, hv, hsm⟩
  rw [← hreach]
  simp [isProved, contains]

theorem forall_isProved_iff (hg : i.constants.Closed) :
    (∀ role, i.isProved name role = true) ↔
      name ∈ i.constants.vertices ∧
        ¬ ∃ s, i.constants.Edge name s ∧ i.constants.Leads s i.marker := by
  simp only [isProved_iff hg]
  constructor
  · intro h
    refine ⟨(h .type).1, ?_⟩
    rintro ⟨s, hs, hsm⟩
    rcases edge_iff.1 hs with hs | hs
    · exact (h .type).2 ⟨s, hs, hsm⟩
    · exact (h .value).2 ⟨s, hs, hsm⟩
  · rintro ⟨hv, h⟩ role
    refine ⟨hv, ?_⟩
    rintro ⟨s, hs, hsm⟩
    exact h ⟨s, edge_of_mem_directDeps hs, hsm⟩

/-- A vertex other than the marker leads to the marker only through something that it mentions. -/
theorem not_leads_marker_iff (hv : u ∈ i.constants.vertices) (hu : u ≠ i.marker)
    (hg : i.constants.Closed) :
    ¬ i.constants.Leads u i.marker ↔ ∀ role, i.isProved u role = true := by
  rw [forall_isProved_iff hg]
  constructor
  · intro h
    refine ⟨hv, ?_⟩
    rintro ⟨s, hus, hsm⟩
    exact h (.head hus hsm)
  · rintro ⟨-, h⟩ hum
    rcases ReflTransGen.cases_head hum with heq | ⟨s, hus, hsm⟩
    · exact hu heq
    · exact h ⟨s, hus, hsm⟩

/-- A role is proved exactly if the names that it uses are: the marker is not among them, and every
role of every other one is proved. -/
theorem isProved_iff_uses (hg : i.constants.Closed) (hv : name ∈ i.constants.vertices) :
    i.isProved name role = true ↔
      i.marker ∉ i.uses name role ∧
        ∀ u ∈ i.uses name role, u ≠ i.marker → ∀ r, i.isProved u r = true := by
  have hcut : (∃ u ∈ i.uses name role, i.constants.Leads u i.marker) ↔
      ∃ s ∈ i.constants.directDeps role name, i.constants.Leads s i.marker :=
    exists_leads_collectUses_iff
  rw [isProved_iff hg, ← hcut]
  constructor
  · rintro ⟨-, hno⟩
    refine ⟨fun hm => hno ⟨_, hm, .refl⟩, fun u hu hne => ?_⟩
    rw [← not_leads_marker_iff (mem_vertices_of_mem_uses hg hu) hne hg]
    exact fun hum => hno ⟨u, hu, hum⟩
  · rintro ⟨hm, hall⟩
    refine ⟨hv, ?_⟩
    rintro ⟨u, hu, hum⟩
    by_cases hne : u = i.marker
    · subst hne; exact hm hu
    · exact (not_leads_marker_iff (mem_vertices_of_mem_uses hg hu) hne hg).2 (hall u hu hne) hum

/-! ### Parts -/

theorem name_finish (i : Inference) (d : Draft) : (i.finish d).name = d.name := rfl

theorem statement_leanOk (hd : d.Unjudged) :
    (i.finish d).statement.leanOk = true ↔ ∀ role ∈ d.statementRoles, i.isProved d.name role = true := by
  cases hp : d.proof with
  | none => simp [finish, finishParts, finishPart, Draft.statementRoles, hp, hd.1]
  | some q => simp [finish, finishParts, finishPart, Draft.statementRoles, hp, hd.1]

theorem proof_leanOk (hd : d.Unjudged) (h : (i.finish d).proof = some p) :
    p.leanOk = i.isProved d.name .value := by
  cases hp : d.proof with
  | none => simp [finish, finishParts, hp] at h
  | some q =>
    have hq : q.leanOk = none := hd.2 q (by simp [hp])
    simp only [finish, finishParts, hp, Option.some.injEq] at h
    rw [← h]
    simp [finishPart, hq]

theorem isSome_proof_finish (i : Inference) (d : Draft) :
    (i.finish d).proof.isSome = d.proof.isSome := by
  cases hp : d.proof <;> simp [finish, finishParts, hp]

theorem mem_parts {n : Node} : p ∈ n.parts ↔ p = n.statement ∨ n.proof = some p := by
  simp [Node.parts]

/-- Taken together, the parts of a node stand for both roles of its constant. -/
theorem forall_parts_leanOk (hd : d.Unjudged) :
    (∀ p ∈ (i.finish d).parts, p.leanOk = true) ↔ ∀ role, i.isProved d.name role = true := by
  constructor
  · intro h role
    have hs := (statement_leanOk hd).1 (h _ (mem_parts.2 (Or.inl rfl)))
    cases hp : (i.finish d).proof with
    | none =>
      have hnone : d.proof = none := by simpa [hp] using (isSome_proof_finish i d).symm
      refine hs role ?_
      cases role <;> simp [Draft.statementRoles, hnone]
    | some q =>
      have hsome : d.proof.isSome = true := by rw [← isSome_proof_finish i d, hp]; rfl
      obtain ⟨q', hq'⟩ := Option.isSome_iff_exists.mp hsome
      cases role with
      | type => exact hs .type (by simp [Draft.statementRoles, hq'])
      | value =>
        rw [← proof_leanOk hd hp]
        exact h q (mem_parts.2 (Or.inr hp))
  · intro h p hp
    rcases mem_parts.1 hp with rfl | hp
    · exact (statement_leanOk hd).2 fun role _ => h role
    · rw [proof_leanOk hd hp]; exact h .value

/-! ### Names that no constant has -/

theorem leanOk_iff_mem_vertices {cs : List Constant} (hi : i.constants = .ofConstants cs)
    (hd : d.Unjudged) (hnone : ∀ c ∈ cs, c.name ≠ d.name) (hp : p ∈ (i.finish d).parts) :
    p.leanOk = true ↔ d.name ∈ i.constants.vertices := by
  have hg : i.constants.Closed := hi ▸ closed_ofConstants cs
  have hrole : ∀ role, i.isProved d.name role = true ↔ d.name ∈ i.constants.vertices := by
    intro role
    rw [isProved_iff hg, hi, directDeps_eq_nil hnone]
    simp
  rcases mem_parts.1 hp with rfl | hp
  · rw [statement_leanOk hd]
    simp only [hrole]
    constructor
    · exact fun h => h .type d.type_mem_statementRoles
    · exact fun h _ _ => h
  · rw [proof_leanOk hd hp, hrole]

theorem mem_vertices_of_leanOk (hg : i.constants.Closed) (hd : d.Unjudged)
    (hp : p ∈ (i.finish d).parts) (hok : p.leanOk = true) : d.name ∈ i.constants.vertices := by
  rcases mem_parts.1 hp with rfl | hp
  · have htype := (statement_leanOk hd).1 hok .type d.type_mem_statementRoles
    exact ((isProved_iff hg).1 htype).1
  · rw [proof_leanOk hd hp] at hok
    exact ((isProved_iff hg).1 hok).1

/-- A part is found to be proved only if its name occurs among the constants: as the name of one, or
mentioned by one. For a name that no constant has, being mentioned is also enough. -/
theorem leanOk_requires_occurrence (cs : List Constant) (r : Registry) (marker : Name) (d : Draft)
    (hd : d.Unjudged) (p : Part) (hp : p ∈ (finish ⟨.ofConstants cs, r, marker⟩ d).parts) :
    (p.leanOk = true → ∃ c ∈ cs, c.name = d.name ∨ c.Mentions d.name) ∧
      ((∀ c ∈ cs, c.name ≠ d.name) → (p.leanOk = true ↔ ∃ c ∈ cs, c.Mentions d.name)) := by
  refine ⟨fun hok => ?_, fun hnone => ?_⟩
  · exact mem_vertices_ofConstants.1 (mem_vertices_of_leanOk (closed_ofConstants cs) hd hp hok)
  · rw [leanOk_iff_mem_vertices rfl hd hnone hp, mem_vertices_ofConstants]
    refine exists_congr fun c => and_congr_right fun hc => ?_
    exact or_iff_right (hnone c hc)

/-- A list of constants that mentions `b` without a constant of that name. -/
def onlyMentions : List Constant := [⟨⟨"a"⟩, [⟨"b"⟩], []⟩]

theorem onlyMentions_mentions : ∃ c ∈ onlyMentions, c.Mentions ⟨"b"⟩ :=
  ⟨_, List.mem_singleton_self _, Or.inl (List.mem_singleton_self _)⟩

theorem leanOk_requires_occurrence_mentioned :
    let i : Inference := ⟨.ofConstants onlyMentions, .empty, ⟨"sorryAx"⟩⟩
    let p := (i.finish (.ofName ⟨"b"⟩)).statement
    ((Draft.ofName ⟨"b"⟩).Unjudged ∧ p ∈ (i.finish (.ofName ⟨"b"⟩)).parts) ∧ p.leanOk = true := by
  intro i p
  have hp : p ∈ (i.finish (.ofName ⟨"b"⟩)).parts := mem_parts.2 (Or.inl rfl)
  obtain ⟨-, hiff⟩ := leanOk_requires_occurrence _ _ _ _ (Draft.unjudged_ofName _) p hp
  exact ⟨⟨Draft.unjudged_ofName _, hp⟩, (hiff (by decide)).2 onlyMentions_mentions⟩

/-- A name that is only mentioned counts as proved, though no constant has it. -/
theorem leanOk_of_mentioned_only :
    ¬ ∀ (cs : List Constant) (r : Registry) (marker : Name) (d : Draft), d.Unjudged →
      ∀ p ∈ (finish ⟨.ofConstants cs, r, marker⟩ d).parts, p.leanOk = true →
        ∃ c ∈ cs, c.name = d.name := by
  intro h
  let i : Inference := ⟨.ofConstants onlyMentions, .empty, ⟨"sorryAx"⟩⟩
  have hnone : ∀ c ∈ onlyMentions, c.name ≠ (Draft.ofName ⟨"b"⟩).name := by decide
  have hp : (i.finish (.ofName ⟨"b"⟩)).statement ∈ (i.finish (.ofName ⟨"b"⟩)).parts :=
    mem_parts.2 (Or.inl rfl)
  obtain ⟨c, hc, hmentions⟩ := onlyMentions_mentions
  have hv : ⟨"b"⟩ ∈ i.constants.vertices := mem_vertices_ofConstants.2 ⟨c, hc, Or.inr hmentions⟩
  have hok := (leanOk_iff_mem_vertices rfl (Draft.unjudged_ofName _) hnone hp).2 hv
  obtain ⟨c, hc, hname⟩ := h _ _ _ _ (Draft.unjudged_ofName _) _ hp hok
  exact hnone c hc hname

end Inference

end Compendium
