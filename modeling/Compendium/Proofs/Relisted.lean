import Compendium.Proofs.SharedOut

/-!
# Constants that are listed in another way

Of a list of constants, only what is mentioned counts: which names there are, and what each of them
mentions in each role (`Alike`). The order of the list, and whether a constant comes in one piece, decide
the order in which the searches come upon names, but not what they find. For this it is enough to compare
a graph with one that has more in it (`Within`): whatever path there is in the smaller one is also a path
in the larger one, so the larger one has at least the same uses, and what is proved there is proved in the
smaller one. Two lists that are alike lie within each other, and a list lies within each that goes on from
it.
-/

namespace Compendium

/-- Two lists of constants have the same names, which mention the same names in each of their roles. -/
structure Constant.Alike (cs cs' : List Constant) : Prop where
  names : ∀ a, (∃ c ∈ cs, c.name = a ∨ c.Mentions a) ↔ ∃ c ∈ cs', c.name = a ∨ c.Mentions a
  deps : ∀ a role b, (∃ c ∈ cs, c.name = a ∧ b ∈ c.deps role) ↔ ∃ c ∈ cs', c.name = a ∧ b ∈ c.deps role

namespace Constant.Alike

variable {cs cs' : List Constant}

theorem symm (h : Alike cs cs') : Alike cs' cs :=
  ⟨fun a => (h.names a).symm, fun a role b => (h.deps a role b).symm⟩

theorem trans {cs'' : List Constant} (h : Alike cs cs') (h' : Alike cs' cs'') : Alike cs cs'' :=
  ⟨fun a => (h.names a).trans (h'.names a), fun a role b => (h.deps a role b).trans (h'.deps a role b)⟩

theorem of_perm (h : cs.Perm cs') : Alike cs cs' where
  names a := by simp only [h.mem_iff]
  deps a role b := by simp only [h.mem_iff]

/-- A constant can come in two pieces. -/
theorem split (name : Name) (types types' values values' : List Name) (cs : List Constant) :
    Alike (⟨name, types ++ types', values ++ values'⟩ :: cs)
      (⟨name, types, values⟩ :: ⟨name, types', values'⟩ :: cs) where
  names a := by
    simp only [List.exists_mem_cons_iff, Mentions, List.mem_append]
    grind
  deps a role b := by
    simp only [List.exists_mem_cons_iff]
    cases role <;> simp only [Constant.deps, List.mem_append] <;> grind

/-- A constant can repeat what it mentions, in any order. -/
theorem repeated {types types' values values' : List Name} (htypes : ∀ a, a ∈ types ↔ a ∈ types')
    (hvalues : ∀ a, a ∈ values ↔ a ∈ values') (name : Name) (cs : List Constant) :
    Alike (⟨name, types, values⟩ :: cs) (⟨name, types', values'⟩ :: cs) where
  names a := by simp only [List.exists_mem_cons_iff, Mentions, htypes, hvalues]
  deps a role b := by
    simp only [List.exists_mem_cons_iff]
    cases role
    · simp only [Constant.deps, htypes]
    · simp only [Constant.deps, hvalues]

end Constant.Alike

namespace ConstantGraph
open Relation

variable {g g' : ConstantGraph} {a b x name marker : Name} {stop isNode : Name → Bool}
  {seeds seeds' : List Name} {cs cs' : List Constant}

/-- Each constant of `g` is one of `g'`, and mentions there what it mentions in `g`. -/
structure Within (g g' : ConstantGraph) : Prop where
  vertices : ∀ a ∈ g.vertices, a ∈ g'.vertices
  deps : ∀ role a, g.directDeps role a ⊆ g'.directDeps role a

namespace Within

theorem edge (h : g.Within g') (hab : g.Edge a b) : g'.Edge a b := by
  rcases edge_iff.1 hab with hb | hb
  · exact edge_iff.2 (Or.inl (h.deps .type a hb))
  · exact edge_iff.2 (Or.inr (h.deps .value a hb))

theorem leads (h : g.Within g') (hab : g.Leads a b) : g'.Leads a b :=
  ReflTransGen.mono (fun _ _ => h.edge) _ _ hab

theorem openLeads (h : g.Within g') (hab : g.OpenLeads stop a b) : g'.OpenLeads stop a b :=
  ReflTransGen.mono (fun _ _ hopen => ⟨hopen.1, h.edge hopen.2⟩) _ _ hab

theorem reaches (h : g.Within g') (hseeds : seeds ⊆ seeds') (hr : g.reaches seeds marker = true) :
    g'.reaches seeds' marker = true := by
  obtain ⟨hmarker, s, hs, hv, hsm⟩ := reaches_iff.1 hr
  exact reaches_iff.2 ⟨h.vertices _ hmarker, s, hseeds hs, h.vertices _ hv, h.leads hsm⟩

theorem collectUses (h : g.Within g') (hseeds : seeds ⊆ seeds') :
    g.collectUses seeds isNode marker ⊆ g'.collectUses seeds' isNode marker := by
  intro x hx
  obtain ⟨hstop, s, hs, hsx⟩ := mem_collectUses.1 hx
  exact mem_collectUses.2 ⟨hstop, s, hseeds hs, h.openLeads hsx⟩

theorem of_alike (h : Constant.Alike cs cs') : (ofConstants cs).Within (ofConstants cs') where
  vertices a ha := mem_vertices_ofConstants.2 ((h.names a).1 (mem_vertices_ofConstants.1 ha))
  deps role a b hb := mem_directDeps_ofConstants.2 ((h.deps a role b).1 (mem_directDeps_ofConstants.1 hb))

/-- A list of constants can go on. -/
theorem of_append (cs more : List Constant) : (ofConstants cs).Within (ofConstants (cs ++ more)) where
  vertices a ha := by
    obtain ⟨c, hc, hca⟩ := mem_vertices_ofConstants.1 ha
    exact mem_vertices_ofConstants.2 ⟨c, List.mem_append_left _ hc, hca⟩
  deps role a b hb := by
    obtain ⟨c, hc, hcb⟩ := mem_directDeps_ofConstants.1 hb
    exact mem_directDeps_ofConstants.2 ⟨c, List.mem_append_left _ hc, hcb⟩

end Within

end ConstantGraph

/-! ### Nodes up to the order of what they use -/

structure Part.UpToOrder (p p' : Part) : Prop where
  uses : p.uses.Perm p'.uses
  rest : { p with uses := p'.uses } = p'

structure Node.UpToOrder (n n' : Node) : Prop where
  parts : List.Forall₂ Part.UpToOrder n.parts n'.parts
  rest : { n with statement := n'.statement, proof := n'.proof } = n'

theorem Name.distinct_perm {names names' : List Name} (h : ∀ u, u ∈ names ↔ u ∈ names') :
    (distinct names).Perm (distinct names') := by
  rw [List.perm_ext_iff_of_nodup (nodup_distinct _) (nodup_distinct _)]
  intro u
  rw [mem_distinct, mem_distinct, h]

namespace Inference
open ConstantGraph

variable {g g' : ConstantGraph} {r r' : Registry} {marker name : Name} {role : Role} {i : Inference} {d : Draft}

theorem uses_subset_of_within (h : g.Within g') : uses ⟨g, r, marker⟩ name role ⊆ uses ⟨g', r, marker⟩ name role :=
  h.collectUses (h.deps role name)

/-- What is proved of a constant stays so when there is less to depend on. -/
theorem isProved_of_within (h : g.Within g') (hname : g.contains name = true)
    (hp : isProved ⟨g', r', marker⟩ name role = true) : isProved ⟨g, r, marker⟩ name role = true := by
  obtain ⟨-, hno⟩ := Bool.and_eq_true_iff.mp hp
  refine Bool.and_eq_true_iff.mpr ⟨hname, ?_⟩
  rw [Bool.not_eq_true', Bool.eq_false_iff] at hno ⊢
  exact fun hr => hno (h.reaches (h.deps role name) hr)

theorem mem_uses_congr (h : g.Within g') (h' : g'.Within g) (u : Name) :
    u ∈ uses ⟨g, r, marker⟩ name role ↔ u ∈ uses ⟨g', r, marker⟩ name role :=
  ⟨fun hu => uses_subset_of_within h hu, fun hu => uses_subset_of_within h' hu⟩

theorem isProved_congr_within (h : g.Within g') (h' : g'.Within g) :
    isProved ⟨g, r, marker⟩ name role = isProved ⟨g', r, marker⟩ name role := by
  have hname : ∀ {k : ConstantGraph}, isProved ⟨k, r, marker⟩ name role = true → k.contains name = true :=
    fun hp => (Bool.and_eq_true_iff.mp hp).1
  have hcontains : ∀ {k k' : ConstantGraph}, k.Within k' → k.contains name = true → k'.contains name = true := by
    intro k k' hk hc
    exact List.contains_iff_mem.mpr (hk.vertices _ (List.contains_iff_mem.mp hc))
  rw [Bool.eq_iff_iff]
  exact ⟨fun hp => isProved_of_within h' (hcontains h (hname hp)) hp,
    fun hp => isProved_of_within h (hcontains h' (hname hp)) hp⟩

/-! ### Parts -/

theorem finishPart_upToOrder (p : PartDraft) {uses uses' : List Name} (h : uses.Perm uses') (isProved : Bool)
    (environment : String) :
    (finishPart p uses isProved environment).UpToOrder (finishPart p uses' isProved environment) :=
  ⟨h, rfl⟩

theorem proofUses_perm {s s' names names' : List Name} (hs : ∀ u, u ∈ s ↔ u ∈ s') (h : ∀ u, u ∈ names ↔ u ∈ names') :
    (proofUses ⟨g, r, marker⟩ s names).Perm (proofUses ⟨g', r, marker⟩ s' names') := by
  rw [proofUses_eq, proofUses_eq]
  refine Name.distinct_perm fun u => ?_
  simp only [List.mem_filter, h, hs]

/-- Two graphs that lie within each other make the same of a draft, up to the order of names. -/
theorem finish_upToOrder (h : g.Within g') (h' : g'.Within g) (r : Registry) (marker : Name) (d : Draft) :
    (finish ⟨g, r, marker⟩ d).UpToOrder (finish ⟨g', r, marker⟩ d) := by
  have hmem : ∀ (declared : List Name) role u, u ∈ declared ++ uses ⟨g, r, marker⟩ d.name role ↔
      u ∈ declared ++ uses ⟨g', r, marker⟩ d.name role := by
    intro declared role u
    rw [List.mem_append, List.mem_append, mem_uses_congr h h']
  have hproved : ∀ role, isProved ⟨g, r, marker⟩ d.name role = isProved ⟨g', r, marker⟩ d.name role :=
    fun role => isProved_congr_within h h'
  refine ⟨?_, rfl⟩
  cases hp : d.proof with
  | none =>
    -- without a proof, the statement has the uses of the value as well
    simp only [finish, finishParts, hp, Node.parts, Option.toList_none, hproved]
    refine .cons (finishPart_upToOrder _ (Name.distinct_perm fun u => ?_) _ _) .nil
    rw [List.mem_append, hmem, mem_uses_congr h h', ← List.mem_append]
  | some p =>
    have hstatement := Name.distinct_perm (hmem d.statement.uses .type)
    simp only [finish, finishParts, hp, Node.parts, Option.toList_some, hproved]
    refine .cons (finishPart_upToOrder _ hstatement _ _) (.cons (finishPart_upToOrder _ ?_ _ _) .nil)
    exact proofUses_perm (fun u => hstatement.mem_iff) (hmem p.uses .value)

/-- With less to depend on, each part that is proved stays so. -/
theorem leanOk_of_within (h : g.Within g') (hname : g.contains d.name = true) (r r' : Registry) (marker : Name) :
    List.Forall₂ (fun p p' => p'.leanOk = true → p.leanOk = true)
      (finish ⟨g, r, marker⟩ d).parts (finish ⟨g', r', marker⟩ d).parts := by
  have hrole : ∀ role, isProved ⟨g', r', marker⟩ d.name role = true → isProved ⟨g, r, marker⟩ d.name role = true :=
    fun role => isProved_of_within h hname
  -- the author's word is the same on both sides
  have hpart : ∀ (p : PartDraft) {ok ok' : Bool}, (ok' = true → ok = true) →
      p.leanOk.getD ok' = true → p.leanOk.getD ok = true := by
    intro p ok ok' himp
    cases p.leanOk with
    | none => exact himp
    | some word => exact id
  cases hp : d.proof with
  | none =>
    simp only [finish, finishParts, hp, Node.parts, Option.toList_none]
    refine .cons (hpart d.statement fun hok => ?_) .nil
    obtain ⟨htype, hvalue⟩ := Bool.and_eq_true_iff.mp hok
    exact Bool.and_eq_true_iff.mpr ⟨hrole .type htype, hrole .value hvalue⟩
  | some p =>
    simp only [finish, finishParts, hp, Node.parts, Option.toList_some]
    exact .cons (hpart d.statement (hrole .type)) (.cons (hpart p (hrole .value)) .nil)

/-- Lists of constants that are alike make the same node of a draft, except that it may use its names in
another order. Such lists are those with the same constants in another order, and those where a constant
comes in pieces or repeats what it mentions. When a list goes on, no part of a draft whose name it has
already is found to be proved that was not so before, whatever has been registered meanwhile. -/
theorem finish_regards_mentions (marker : Name) (d : Draft) :
    (∀ cs cs', Constant.Alike cs cs' → ∀ r,
      (finish ⟨.ofConstants cs, r, marker⟩ d).UpToOrder (finish ⟨.ofConstants cs', r, marker⟩ d)) ∧
    (∀ cs cs' : List Constant, cs.Perm cs' → Constant.Alike cs cs') ∧
    (∀ name types types' values values' cs,
      Constant.Alike (⟨name, types ++ types', values ++ values'⟩ :: cs)
        (⟨name, types, values⟩ :: ⟨name, types', values'⟩ :: cs)) ∧
    (∀ types types' values values', (∀ a, a ∈ types ↔ a ∈ types') → (∀ a, a ∈ values ↔ a ∈ values') →
      ∀ name cs, Constant.Alike (⟨name, types, values⟩ :: cs) (⟨name, types', values'⟩ :: cs)) ∧
    ∀ cs more r r', (ofConstants cs).contains d.name = true →
      List.Forall₂ (fun p p' => p'.leanOk = true → p.leanOk = true)
        (finish ⟨.ofConstants cs, r, marker⟩ d).parts (finish ⟨.ofConstants (cs ++ more), r', marker⟩ d).parts := by
  refine ⟨fun cs cs' h r => ?_, fun _ _ => .of_perm, Constant.Alike.split, fun _ _ _ _ => .repeated,
    fun cs more r r' hname => ?_⟩
  · exact finish_upToOrder (.of_alike h) (.of_alike h.symm) r marker d
  · exact leanOk_of_within (.of_append cs more) hname r r' marker

/-- The type of `t` mentions two nodes, and its value a constant that leads back to `t`. -/
def inOnePiece : List Constant :=
  [⟨⟨"t"⟩, [⟨"a"⟩, ⟨"b"⟩], [⟨"h"⟩]⟩, ⟨⟨"h"⟩, [⟨"t"⟩], [⟨"b"⟩, ⟨"b"⟩]⟩]

/-- The same constants from the last to the first, where `t` comes in two pieces. -/
def inTwoPieces : List Constant :=
  [⟨⟨"h"⟩, [⟨"t"⟩], [⟨"b"⟩]⟩, ⟨⟨"t"⟩, [⟨"b"⟩], []⟩, ⟨⟨"t"⟩, [⟨"a"⟩], [⟨"h"⟩]⟩]

theorem alike_pieces : Constant.Alike inOnePiece inTwoPieces := by
  have hsplit := Constant.Alike.split ⟨"t"⟩ [⟨"a"⟩] [⟨"b"⟩] [⟨"h"⟩] [] [⟨⟨"h"⟩, [⟨"t"⟩], [⟨"b"⟩, ⟨"b"⟩]⟩]
  have hturned : Constant.Alike
      [⟨⟨"t"⟩, [⟨"a"⟩], [⟨"h"⟩]⟩, ⟨⟨"t"⟩, [⟨"b"⟩], []⟩, ⟨⟨"h"⟩, [⟨"t"⟩], [⟨"b"⟩, ⟨"b"⟩]⟩]
      [⟨⟨"h"⟩, [⟨"t"⟩], [⟨"b"⟩, ⟨"b"⟩]⟩, ⟨⟨"t"⟩, [⟨"b"⟩], []⟩, ⟨⟨"t"⟩, [⟨"a"⟩], [⟨"h"⟩]⟩] := .of_perm (by decide)
  have honce : ∀ a : Name, a ∈ [⟨"b"⟩, ⟨"b"⟩] ↔ a ∈ [⟨"b"⟩] := by simp
  exact (hsplit.trans hturned).trans (.repeated (fun _ => Iff.rfl) honce ⟨"h"⟩ _)

def twoLemmas : Registry :=
  ["a", "b"].foldl (fun r name => r.register (.ofStatement ⟨name⟩ ⟨true, "", [], "lemma"⟩)) .empty

/-- What `h` turns out to mention leaves `t` unproved. -/
theorem finish_regards_mentions_pieces :
    let n := finish ⟨.ofConstants inOnePiece, twoLemmas, ⟨"sorryAx"⟩⟩ (.ofName ⟨"t"⟩)
    let n' := finish ⟨.ofConstants inTwoPieces, twoLemmas, ⟨"sorryAx"⟩⟩ (.ofName ⟨"t"⟩)
    let later := finish ⟨.ofConstants (inOnePiece ++ [⟨⟨"h"⟩, [], [⟨"sorryAx"⟩]⟩]), .empty, ⟨"sorryAx"⟩⟩
      (.ofName ⟨"t"⟩)
    Constant.Alike inOnePiece inTwoPieces ∧ (ofConstants inOnePiece).contains ⟨"t"⟩ = true ∧
      n.UpToOrder n' ∧ n.statement.uses = [⟨"a"⟩, ⟨"b"⟩] ∧ n'.statement.uses = [⟨"b"⟩, ⟨"a"⟩] ∧
      n.statement.leanOk = true ∧ later.statement.leanOk = false ∧
      List.Forall₂ (fun p p' => p'.leanOk = true → p.leanOk = true) n.parts later.parts := by
  intro n n' later
  obtain ⟨halike, -, -, -, hmore⟩ := finish_regards_mentions ⟨"sorryAx"⟩ (.ofName ⟨"t"⟩)
  have hname : (ofConstants inOnePiece).contains (Draft.ofName ⟨"t"⟩).name = true := by decide
  exact ⟨alike_pieces, hname, halike _ _ alike_pieces twoLemmas, by decide +kernel, by decide +kernel,
    by decide +kernel, by decide +kernel, hmore _ _ twoLemmas .empty hname⟩

end Inference

end Compendium
