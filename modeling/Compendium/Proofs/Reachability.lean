import Compendium.Proofs.Status

/-!
# Reachability of the marker

`reaches` asks for a path from a seed to the marker, with both ends in the graph (`Exposes`). A path of
no mentions counts, so a marker that is a seed is reached, and the roles of the mentions on the path do
not matter. This depends on the seeds only by which vertices are among them (`exposes_congr`), and it is
enough to ask seed by seed (`exposes_append`). What the author leaves open is computed from it: a part is
proved if nothing that its role mentions exposes it.
-/

namespace Compendium

namespace ConstantGraph

variable {g : ConstantGraph} {marker : Name} {seeds seeds' : List Name}

/-- A path of mentions leads from one of the seeds to the marker, inside the graph. It may be empty. -/
def Exposes (g : ConstantGraph) (marker : Name) (seeds : List Name) : Prop :=
  marker ∈ g.vertices ∧ ∃ s ∈ seeds, s ∈ g.vertices ∧ g.Leads s marker

theorem reaches_iff_exposes : g.reaches seeds marker = true ↔ g.Exposes marker seeds := reaches_iff

theorem exposes_congr (h : ∀ v ∈ g.vertices, v ∈ seeds ↔ v ∈ seeds') :
    g.Exposes marker seeds ↔ g.Exposes marker seeds' := by
  refine and_congr_right fun _ => exists_congr fun s => ?_
  constructor
  · rintro ⟨hs, hv, hsm⟩
    exact ⟨(h s hv).1 hs, hv, hsm⟩
  · rintro ⟨hs, hv, hsm⟩
    exact ⟨(h s hv).2 hs, hv, hsm⟩

theorem exposes_append :
    g.Exposes marker (seeds ++ seeds') ↔ g.Exposes marker seeds ∨ g.Exposes marker seeds' := by
  simp only [Exposes, List.mem_append, or_and_right, exists_or, and_or_left]

/-- Seeds that are no vertices and the order and number of the others make no difference. -/
theorem reaches_congr (h : ∀ v ∈ g.vertices, v ∈ seeds ↔ v ∈ seeds') :
    g.reaches seeds marker = g.reaches seeds' marker := by
  rw [Bool.eq_iff_iff, reaches_iff_exposes, reaches_iff_exposes, exposes_congr h]

theorem reaches_append :
    g.reaches (seeds ++ seeds') marker = (g.reaches seeds marker || g.reaches seeds' marker) := by
  rw [Bool.eq_iff_iff, Bool.or_eq_true, reaches_iff_exposes, reaches_iff_exposes, reaches_iff_exposes,
    exposes_append]

end ConstantGraph

/-- A role of a known constant is proved exactly if nothing that it mentions exposes the marker. -/
theorem Inference.isProved_iff_not_exposes {i : Inference} {name : Name} (h : i.constants.contains name = true)
    (role : Role) :
    i.isProved name role = true ↔ ¬ i.constants.Exposes i.marker (i.constants.directDeps role name) := by
  rw [isProved, h, Bool.true_and, Bool.not_eq_true', ← Bool.not_eq_true, ConstantGraph.reaches_iff_exposes]

/-- Reaching the marker from a list of seeds means that a path leads there from one of them, in the
graph. So seeds count as a set, of which only the vertices matter, and two lists reach the marker
together if one of them does. A part of a constant in the graph, unless the author judges it, is proved
exactly if no such path starts from what its roles mention: the type for a statement that has a proof,
the value for the proof, and both for a statement that stands alone. -/
theorem ConstantGraph.reaches_is_reachability (g : ConstantGraph) (marker : Name) :
    (∀ seeds, g.reaches seeds marker = true ↔
      marker ∈ g.vertices ∧ ∃ s ∈ seeds, s ∈ g.vertices ∧ g.Leads s marker) ∧
    (∀ seeds seeds', (∀ v ∈ g.vertices, v ∈ seeds ↔ v ∈ seeds') →
      g.reaches seeds marker = g.reaches seeds' marker) ∧
    (∀ seeds seeds', g.reaches (seeds ++ seeds') marker = (g.reaches seeds marker || g.reaches seeds' marker)) ∧
    ∀ registry d, g.contains d.name = true → d.Unjudged →
      let i : Inference := ⟨g, registry, marker⟩
      (∀ role, i.isProved d.name role = true ↔ ¬ g.Exposes marker (g.directDeps role d.name)) ∧
      ((i.finish d).statement.leanOk = true ↔
        ∀ role ∈ d.statementRoles, ¬ g.Exposes marker (g.directDeps role d.name)) ∧
      ∀ p, (i.finish d).proof = some p →
        (p.leanOk = true ↔ ¬ g.Exposes marker (g.directDeps .value d.name)) := by
  refine ⟨fun seeds => reaches_iff, fun seeds seeds' => reaches_congr, fun seeds seeds' => reaches_append, ?_⟩
  intro registry d hd hun i
  have hrole : ∀ role, i.isProved d.name role = true ↔ ¬ g.Exposes marker (g.directDeps role d.name) :=
    Inference.isProved_iff_not_exposes (i := i) hd
  refine ⟨hrole, ?_, fun p hp => ?_⟩
  · rw [Inference.statement_leanOk hun]
    exact forall_congr' fun role => forall_congr' fun _ => hrole role
  · rw [Inference.proof_leanOk hun hp]
    exact hrole .value

def onlyStated : List Constant :=
  [⟨⟨"a"⟩, [⟨"b"⟩], [⟨"gap"⟩]⟩, ⟨⟨"b"⟩, [⟨"b"⟩], []⟩, ⟨⟨"gap"⟩, [], [⟨"sorryAx"⟩]⟩]

theorem ConstantGraph.reaches_is_reachability_onlyStated :
    let g : ConstantGraph := .ofConstants onlyStated
    let d : Draft := { Draft.ofName ⟨"a"⟩ with proof := some .empty }
    let n := Inference.finish ⟨g, .empty, ⟨"sorryAx"⟩⟩ d
    g.contains ⟨"a"⟩ = true ∧ d.Unjudged ∧
      g.reaches [⟨"gap"⟩, ⟨"nowhere"⟩, ⟨"gap"⟩] ⟨"sorryAx"⟩ = g.reaches [⟨"gap"⟩] ⟨"sorryAx"⟩ ∧
      n.statement.leanOk = true ∧ ∃ p, n.proof = some p ∧ p.leanOk = false := by
  intro g d n
  obtain ⟨hreaches, hcongr, -, hstatus⟩ := reaches_is_reachability g ⟨"sorryAx"⟩
  have hcontains : g.contains ⟨"a"⟩ = true := by decide
  have hun : d.Unjudged := ⟨rfl, by simp [d, PartDraft.empty]⟩
  obtain ⟨-, hstatement, hproof⟩ := hstatus .empty d hcontains hun
  refine ⟨hcontains, hun, hcongr _ _ (by decide), hstatement.2 ?_, _, rfl, Bool.eq_false_iff.2 fun hok => ?_⟩
  · intro role hrole
    obtain rfl : role = .type := List.mem_singleton.mp hrole
    exact fun h => absurd ((hreaches _).2 h) (by decide +kernel)
  · exact (hproof _ rfl).1 hok ((hreaches _).1 (by decide +kernel))

end Compendium
