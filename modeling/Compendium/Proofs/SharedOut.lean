import Compendium.Proofs.Status
import Compendium.Proofs.UsedOnce

/-!
# How names are shared out between statement and proof

The names that a node uses come from four lists: what the author declares for the statement and for the
proof, and what is inferred from the type and from the value of the constant. They are put together by
`Name.distinct`, which keeps each name at its first place (`Name.firstPlaces_distinct`). With a proof, no
name is lost and none but the marker is in both parts; without one, the statement takes what both parts
would use. So a proof that declares nothing can be left out of a draft, and the statement gets the names of
both parts, in the same order (`Name.distinct_append_proofUses`).
-/

namespace Compendium

namespace Name

variable {names : List Name}

/-! ### First places -/

/-- The names of `names`, each of them once, in the order of their first places there. -/
structure FirstPlaces (names found : List Name) : Prop where
  mem : ∀ u, u ∈ found ↔ u ∈ names
  order : found.Pairwise fun u v => names.idxOf u < names.idxOf v

theorem firstPlaces_distinct (names : List Name) : FirstPlaces names (distinct names) := by
  refine ⟨fun u => mem_distinct, ?_⟩
  induction names using List.reverseRecOn with
  | nil => exact .nil
  | append_singleton names name ih =>
    have hold : ∀ u ∈ distinct names, (names ++ [name]).idxOf u = names.idxOf u := fun u hu =>
      List.idxOf_append_of_mem (mem_distinct.1 hu)
    have horder : (distinct names).Pairwise fun u v => (names ++ [name]).idxOf u < (names ++ [name]).idxOf v := by
      refine ih.imp_of_mem fun hu hv huv => ?_
      rwa [hold _ hu, hold _ hv]
    rw [distinct_concat]
    split
    · exact horder
    · rename_i hname
      refine List.pairwise_append.mpr ⟨horder, List.pairwise_singleton .., fun u hu v hv => ?_⟩
      obtain rfl := List.mem_singleton.mp hv
      -- a new name comes behind all others
      rw [hold u hu, List.idxOf_append_of_notMem hname]
      exact Nat.lt_add_right _ (List.idxOf_lt_length_of_mem (mem_distinct.1 hu))

theorem distinct_filter (p : Name → Bool) (names : List Name) :
    distinct (names.filter p) = (distinct names).filter p := by
  induction names using List.reverseRecOn with
  | nil => rfl
  | append_singleton names name ih =>
    rw [List.filter_append, distinct_concat]
    cases hp : p name with
    | true =>
      rw [List.filter_cons_of_pos hp, List.filter_nil, distinct_concat, ih]
      by_cases hname : name ∈ names <;> simp [hname, hp]
    | false =>
      rw [List.filter_cons_of_neg (by simp [hp]), List.filter_nil, List.append_nil, ih]
      by_cases hname : name ∈ names <;> simp [hname, hp]

theorem distinct_append (names names' : List Name) :
    distinct (names ++ names') = distinct names ++ distinct (names'.filter (· ∉ names)) := by
  rw [distinct, List.eraseDups_append, List.removeAll]
  simp [distinct]

theorem distinct_of_nodup (h : names.Nodup) : distinct names = names := by
  induction names using List.reverseRecOn with
  | nil => rfl
  | append_singleton names name ih =>
    obtain ⟨hnames, -, hdisjoint⟩ := List.nodup_append.mp h
    have hname : name ∉ names := fun hmem => hdisjoint name hmem name (List.mem_singleton_self name) rfl
    rw [distinct_concat, if_neg hname, ih hnames]

theorem distinct_distinct (names : List Name) : distinct (distinct names) = distinct names :=
  distinct_of_nodup (nodup_distinct names)

end Name

def Draft.withoutProof (d : Draft) : Draft := { d with proof := none }

namespace Inference
open Name

variable {i : Inference} {d : Draft} {p : PartDraft} {s q : List Name}

/-! ### The names of the parts -/

/-- How a statement that uses `s` and a proof that uses `q` share out the names that are declared and
inferred for a draft with the proof `p`. -/
structure SharesOut (i : Inference) (d : Draft) (p : PartDraft) (s q : List Name) : Prop where
  statement : FirstPlaces (d.statement.uses ++ i.uses d.name .type) s
  /-- The proof leaves to the statement what that uses already. -/
  proof : FirstPlaces ((p.uses ++ i.uses d.name .value).filter fun u => u = i.marker ∨ u ∉ s) q
  apart : ∀ u ∈ s, u ∈ q → u = i.marker
  marker_statement : i.marker ∈ s ↔ i.marker ∈ d.statement.uses ∨ i.marker ∈ i.uses d.name .type
  marker_proof : i.marker ∈ q ↔ i.marker ∈ p.uses ∨ i.marker ∈ i.uses d.name .value
  /-- No name is lost and none is added. -/
  together : ∀ u, u ∈ s ∨ u ∈ q ↔
    (u ∈ d.statement.uses ∨ u ∈ i.uses d.name .type) ∨ u ∈ p.uses ∨ u ∈ i.uses d.name .value

theorem SharesOut.of_firstPlaces (hs : FirstPlaces (d.statement.uses ++ i.uses d.name .type) s)
    (hq : FirstPlaces ((p.uses ++ i.uses d.name .value).filter fun u => u = i.marker ∨ u ∉ s) q) :
    SharesOut i d p s q := by
  have hmem : ∀ u, u ∈ q ↔ (u ∈ p.uses ∨ u ∈ i.uses d.name .value) ∧ (u = i.marker ∨ u ∉ s) := by
    intro u
    rw [hq.mem, List.mem_filter, List.mem_append, decide_eq_true_iff]
  have hstatement : ∀ u, u ∈ s ↔ u ∈ d.statement.uses ∨ u ∈ i.uses d.name .type := fun u =>
    (hs.mem u).trans List.mem_append
  refine ⟨hs, hq, fun u hu huq => ?_, hstatement _, ?_, fun u => ?_⟩
  · exact ((hmem u).1 huq).2.resolve_right fun hnot => hnot hu
  · rw [hmem]
    exact and_iff_left (Or.inl rfl)
  · rw [← hstatement, hmem]
    by_cases hu : u ∈ s <;> simp [hu]

theorem uses_statement_finish (h : d.proof = some p) :
    (i.finish d).statement.uses = distinct (d.statement.uses ++ i.uses d.name .type) := by
  simp only [finish, finishParts, h]
  rfl

theorem uses_statement_finish_of_none (h : d.proof = none) :
    (i.finish d).statement.uses =
      distinct (d.statement.uses ++ i.uses d.name .type ++ i.uses d.name .value) := by
  simp only [finish, finishParts, h]
  rfl

theorem proofUses_eq (i : Inference) (statementUses names : List Name) :
    i.proofUses statementUses names =
      distinct (names.filter fun u => u = i.marker ∨ u ∉ statementUses) := by
  rw [distinct_filter, proofUses]
  refine List.filter_congr fun u _ => ?_
  simp

theorem exists_proof_finish (h : d.proof = some p) :
    ∃ q, (i.finish d).proof = some q ∧
      q.uses = i.proofUses (i.finish d).statement.uses (p.uses ++ i.uses d.name .value) := by
  rw [uses_statement_finish h]
  simp only [finish, finishParts, h]
  exact ⟨_, rfl, rfl⟩

theorem sharesOut_finish (h : d.proof = some p) :
    SharesOut i d p (i.finish d).statement.uses
      (i.proofUses (i.finish d).statement.uses (p.uses ++ i.uses d.name .value)) := by
  refine .of_firstPlaces ?_ ?_
  · rw [uses_statement_finish h]
    exact firstPlaces_distinct _
  · rw [proofUses_eq]
    exact firstPlaces_distinct _

/-! ### A proof that is left out -/

/-- What a proof leaves to the statement is the statement's already. -/
theorem distinct_append_proofUses (i : Inference) (names names' : List Name) :
    distinct (distinct names ++ i.proofUses (distinct names) names') = distinct (names ++ names') := by
  have hleft : (names'.filter fun u => u = i.marker ∨ u ∉ distinct names).filter (· ∉ distinct names) =
      names'.filter (· ∉ names) := by
    rw [List.filter_filter]
    refine List.filter_congr fun u _ => ?_
    by_cases hu : u ∈ names <;> simp [mem_distinct, hu]
  rw [proofUses_eq, distinct_append, distinct_distinct, ← distinct_filter, hleft, distinct_distinct,
    ← distinct_append]

theorem uses_withoutProof (h : d.proof = some p) (hp : p.uses = []) :
    (i.finish d.withoutProof).statement.uses = distinct ((i.finish d).statement.uses ++
      i.proofUses (i.finish d).statement.uses (p.uses ++ i.uses d.name .value)) := by
  rw [uses_statement_finish h, hp, List.nil_append, distinct_append_proofUses]
  exact uses_statement_finish_of_none rfl

theorem leanOk_withoutProof (hd : d.Unjudged) (h : d.proof = some p) :
    (i.finish d.withoutProof).statement.leanOk =
      ((i.finish d).statement.leanOk && i.isProved d.name .value) := by
  have hjoint : d.withoutProof.Unjudged := ⟨hd.1, fun _ h => nomatch h⟩
  rw [Bool.eq_iff_iff, Bool.and_eq_true, statement_leanOk hjoint, statement_leanOk hd]
  simp [Draft.statementRoles, h, Draft.withoutProof]

/-- Each part uses its names once. With a proof, the statement has what is declared for it and what the
type gives, in the order of first places, and the proof has in the same way what is declared for it and
what the value gives, without what the statement has already; only the marker may be in both, and is
wherever it comes up. No name is lost. Without a proof, the statement has them all. If nothing is declared
for the proof, leaving it out of the draft joins the two parts: their names, and whether they are proved. -/
theorem finish_shares_out_uses (i : Inference) (d : Draft) :
    (i.finish d).UsesOnce ∧
    (∀ p, d.proof = some p → ∃ q, (i.finish d).proof = some q ∧
      SharesOut i d p (i.finish d).statement.uses q.uses ∧
      (p.uses = [] →
        (i.finish d.withoutProof).statement.uses = distinct ((i.finish d).statement.uses ++ q.uses)) ∧
      (d.Unjudged →
        (i.finish d.withoutProof).statement.leanOk = ((i.finish d).statement.leanOk && q.leanOk))) ∧
    (d.proof = none → (i.finish d).proof = none ∧
      FirstPlaces (d.statement.uses ++ i.uses d.name .type ++ i.uses d.name .value)
        (i.finish d).statement.uses) := by
  refine ⟨usesOnce_finish i d, fun p hp => ?_, fun hnone => ⟨?_, ?_⟩⟩
  · obtain ⟨q, hq, huses⟩ := exists_proof_finish (i := i) hp
    refine ⟨q, hq, huses ▸ sharesOut_finish hp, fun hnil => huses ▸ uses_withoutProof hp hnil, fun hun => ?_⟩
    rw [proof_leanOk hun hq]
    exact leanOk_withoutProof hun hp
  · simp only [finish, finishParts, hnone]
  · rw [uses_statement_finish_of_none hnone]
    exact firstPlaces_distinct _

/-- The value of `t` mentions what its type mentions too, and both lead to the marker. -/
def twoSided : Inference where
  constants := .ofConstants
    [⟨⟨"t"⟩, [⟨"a"⟩, ⟨"h"⟩], [⟨"a"⟩, ⟨"b"⟩, ⟨"h"⟩, ⟨"c"⟩]⟩, ⟨⟨"h"⟩, [⟨"h"⟩], [⟨"sorryAx"⟩]⟩]
  registry := ["a", "b", "c"].foldl (fun r name => r.register (.ofStatement ⟨name⟩ ⟨true, "", [], "lemma"⟩)) .empty
  marker := ⟨"sorryAx"⟩

/-- Its author declares for the statement what only the value mentions. -/
def twoSidedDraft : Draft :=
  ⟨⟨"t"⟩, { PartDraft.empty with uses := [⟨"b"⟩, ⟨"x"⟩, ⟨"b"⟩] }, some .empty, false, none, none, none, none⟩

theorem finish_shares_out_uses_twoSided :
    ∃ q, twoSidedDraft.proof = some .empty ∧ twoSidedDraft.Unjudged ∧
      (twoSided.finish twoSidedDraft).proof = some q ∧
      (twoSided.finish twoSidedDraft).statement.uses = [⟨"b"⟩, ⟨"x"⟩, ⟨"a"⟩, ⟨"sorryAx"⟩] ∧
      q.uses = [⟨"c"⟩, ⟨"sorryAx"⟩] ∧
      (twoSided.finish twoSidedDraft.withoutProof).statement.uses =
        [⟨"b"⟩, ⟨"x"⟩, ⟨"a"⟩, ⟨"sorryAx"⟩, ⟨"c"⟩] ∧
      (twoSided.finish twoSidedDraft.withoutProof).statement.leanOk = false := by
  have hun : twoSidedDraft.Unjudged := ⟨rfl, by simp [twoSidedDraft, PartDraft.empty]⟩
  obtain ⟨-, hproof, -⟩ := finish_shares_out_uses twoSided twoSidedDraft
  obtain ⟨q, hq, -, hnames, hok⟩ := hproof .empty rfl
  have hstatement : (twoSided.finish twoSidedDraft).statement.uses = [⟨"b"⟩, ⟨"x"⟩, ⟨"a"⟩, ⟨"sorryAx"⟩] := by
    decide +kernel
  have huses : q.uses = [⟨"c"⟩, ⟨"sorryAx"⟩] := by
    obtain rfl := Option.some.inj hq
    decide +kernel
  refine ⟨q, rfl, hun, hq, hstatement, huses, ?_, ?_⟩
  · rw [hnames rfl, hstatement, huses]
    decide
  · have hgap : (twoSided.finish twoSidedDraft).statement.leanOk = false := by decide +kernel
    rw [hok hun, hgap, Bool.false_and]

end Inference

end Compendium
