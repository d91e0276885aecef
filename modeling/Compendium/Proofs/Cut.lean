import Compendium.Proofs.Reachability

/-!
# What is recorded is a cut

The search for uses stops at the names that it records, and what lies behind them is left to these names.
Every path to the marker goes through a recorded name, so nothing is lost by this: the marker can be reached
from the seeds exactly if it can be reached from what is recorded for them (`reaches_collectUses`). It is
enough to go on from recorded name to recorded name, and never to look at the constants in between
(`exists_recordedLeads_iff`).
-/

namespace Compendium.ConstantGraph
open Relation

variable {g : ConstantGraph} {cs : List Constant} {a b marker : Name} {seeds : List Name}
  {isNode : Name → Bool}

/-- A mention of a list of constants stays among the names that occur in it. -/
theorem mem_vertices_of_edge (h : (ofConstants cs).Edge a b) :
    a ∈ (ofConstants cs).vertices ∧ b ∈ (ofConstants cs).vertices := by
  refine ⟨?_, closed_ofConstants cs a b h⟩
  have hname : ∃ c ∈ cs, c.name = a := by
    rcases edge_iff.1 h with h | h
    all_goals
      obtain ⟨c, hc, hca, -⟩ := mem_directDeps_ofConstants.1 h
      exact ⟨c, hc, hca⟩
  obtain ⟨c, hc, hca⟩ := hname
  exact mem_vertices_ofConstants.2 ⟨c, hc, Or.inl hca⟩

/-- A seed that does not occur mentions nothing, so it leads to itself only. -/
theorem mem_vertices_of_leads (h : (ofConstants cs).Leads a b) (hb : b ∈ (ofConstants cs).vertices) :
    a ∈ (ofConstants cs).vertices := by
  rcases ReflTransGen.cases_head h with rfl | ⟨c, hac, -⟩
  · exact hb
  · exact (mem_vertices_of_edge hac).1

theorem reaches_ofConstants_iff : (ofConstants cs).reaches seeds marker = true ↔
    marker ∈ (ofConstants cs).vertices ∧ ∃ s ∈ seeds, (ofConstants cs).Leads s marker := by
  rw [reaches_iff]
  refine and_congr_right fun hm => exists_congr fun s => and_congr_right fun _ => ?_
  exact ⟨fun h => h.2, fun h => ⟨mem_vertices_of_leads h hm, h⟩⟩

/-! ### From recorded name to recorded name -/

/-- `b` is recorded among the uses of `a`. -/
def Records (g : ConstantGraph) (isNode : Name → Bool) (marker a b : Name) : Prop :=
  b ∈ g.collectUses (g.allDeps a) isNode marker

/-- Recorded names lead from `a` to `b`, each of them recorded for the one before. -/
def RecordedLeads (g : ConstantGraph) (isNode : Name → Bool) (marker : Name) : Name → Name → Prop :=
  ReflTransGen (g.Records isNode marker)

theorem Records.leads (h : g.Records isNode marker a b) : g.Leads a b := by
  obtain ⟨-, s, hs, hsb⟩ := mem_collectUses.1 h
  exact .head hs hsb.leads

theorem RecordedLeads.leads (h : g.RecordedLeads isNode marker a b) : g.Leads a b := by
  induction h with
  | refl => exact .refl
  | tail _ hbc ih => exact ih.trans hbc.leads

/-- A path to the marker goes through a name that the search stops at, and from there recorded names lead to
the marker. -/
theorem Leads.exists_recordedLeads (isNode : Name → Bool) (h : g.Leads a marker) :
    ∃ u, (u = marker ∨ isNode u = true) ∧ g.OpenLeads (stopsAt isNode marker) a u ∧
      g.RecordedLeads isNode marker u marker := by
  induction h using ReflTransGen.head_induction_on with
  | refl => exact ⟨marker, Or.inl rfl, .refl, .refl⟩
  | @head a b hab _ ih =>
    obtain ⟨u, hu, hbu, hum⟩ := ih
    by_cases ha : stopsAt isNode marker a = true
    · -- the search stops at `a`, and `u` is among what is recorded there
      have hrecords : g.Records isNode marker a u := mem_collectUses.2 ⟨hu, b, hab, hbu⟩
      exact ⟨a, by simpa [stopsAt] using ha, .refl, .head hrecords hum⟩
    · exact ⟨u, hu, .head ⟨by simpa using ha, hab⟩ hbu, hum⟩

theorem exists_recordedLeads_iff :
    (∃ u ∈ g.collectUses seeds isNode marker, g.RecordedLeads isNode marker u marker) ↔
      ∃ s ∈ seeds, g.Leads s marker := by
  constructor
  · rintro ⟨u, hu, hum⟩
    exact exists_leads_collectUses_iff.1 ⟨u, hu, hum.leads⟩
  · rintro ⟨s, hs, hsm⟩
    obtain ⟨u, hu, hsu, hum⟩ := hsm.exists_recordedLeads isNode
    exact ⟨u, mem_collectUses.2 ⟨hu, s, hs, hsu⟩, hum⟩

/-- In the graph of any constants, the marker can be reached from the seeds exactly if it can be reached from
the names that are recorded for them, whatever counts as a node. It is the same for those who only follow
recorded names: the marker is in the graph and one of the recorded names leads to it in this way. -/
theorem reaches_collectUses (cs : List Constant) (seeds : List Name) (isNode : Name → Bool) (marker : Name) :
    let g := ofConstants cs
    g.reaches seeds marker = g.reaches (g.collectUses seeds isNode marker) marker ∧
    (g.reaches seeds marker = true ↔ marker ∈ g.vertices ∧
      ∃ u ∈ g.collectUses seeds isNode marker, g.RecordedLeads isNode marker u marker) := by
  intro g
  constructor
  · rw [Bool.eq_iff_iff, reaches_ofConstants_iff, reaches_ofConstants_iff, exists_leads_collectUses_iff]
  · rw [reaches_ofConstants_iff, exists_recordedLeads_iff]

end Compendium.ConstantGraph
