import Compendium.Proofs.Search

/-!
# The graph of a list of constants

`ofConstants` adds one constant after the other. Its mentions are those of the constants in order
(`mentions_ofConstants`), and its vertices are the names that occur in the list, as a constant or as
something that is mentioned (`mem_vertices_ofConstants`). So a mention stays inside the graph, and a
name that no constant of the list has is a vertex without mentions of its own, or none at all.
-/

namespace Compendium

namespace Constant

/-- What a constant mentions in one of its roles. -/
def deps (c : Constant) : Role → List Name
  | .type => c.typeDeps
  | .value => c.valueDeps

/-- The mentions of a constant, those in its type first. -/
def mentions (c : Constant) : List Mention :=
  (c.deps .type).map (Mention.mk c.name .type) ++ (c.deps .value).map (Mention.mk c.name .value)

/-- `name` is mentioned by `c`, in its type or in its value. -/
def Mentions (c : Constant) (name : Name) : Prop := name ∈ c.typeDeps ∨ name ∈ c.valueDeps

theorem mem_mentions {c : Constant} {m : Mention} :
    m ∈ c.mentions ↔ m.source = c.name ∧ m.target ∈ c.deps m.role := by
  obtain ⟨source, role, target⟩ := m
  simp only [mentions, List.mem_append, List.mem_map, Mention.mk.injEq]
  constructor
  · rintro (⟨_, ht, rfl, rfl, rfl⟩ | ⟨_, ht, rfl, rfl, rfl⟩) <;> exact ⟨rfl, ht⟩
  · rintro ⟨rfl, ht⟩
    cases role with
    | type => exact Or.inl ⟨target, ht, rfl, rfl, rfl⟩
    | value => exact Or.inr ⟨target, ht, rfl, rfl, rfl⟩

theorem exists_target_mentions {c : Constant} {name : Name} :
    (∃ m ∈ c.mentions, m.target = name) ↔ c.Mentions name := by
  constructor
  · rintro ⟨⟨source, role, target⟩, hm, rfl⟩
    have ht := (mem_mentions.1 hm).2
    cases role with
    | type => exact Or.inl ht
    | value => exact Or.inr ht
  · rintro (h | h)
    · exact ⟨⟨c.name, .type, name⟩, mem_mentions.2 ⟨rfl, h⟩, rfl⟩
    · exact ⟨⟨c.name, .value, name⟩, mem_mentions.2 ⟨rfl, h⟩, rfl⟩

end Constant

namespace ConstantGraph

variable {g : ConstantGraph} {a b name : Name}

/-- Each name that is mentioned is a vertex. -/
def Closed (g : ConstantGraph) : Prop := ∀ a b, g.Edge a b → b ∈ g.vertices

theorem Closed.mem_of_leads (hg : g.Closed) (ha : a ∈ g.vertices) (hab : g.Leads a b) :
    b ∈ g.vertices := by
  cases hab with
  | refl => exact ha
  | tail _ hbc => exact hg _ _ hbc

/-! ### Adding -/

theorem mentions_addVertex (name : Name) : (g.addVertex name).mentions = g.mentions := by
  unfold addVertex; split <;> rfl

theorem mem_vertices_addVertex : a ∈ (g.addVertex name).vertices ↔ a ∈ g.vertices ∨ a = name := by
  unfold addVertex
  split
  · rename_i h
    have : name ∈ g.vertices := by simpa using h
    constructor
    · exact Or.inl
    · rintro (h | rfl)
      · exact h
      · exact this
  · simp

theorem mentions_foldl_addMention (ms : List Mention) :
    (ms.foldl addMention g).mentions = g.mentions ++ ms := by
  induction ms generalizing g with
  | nil => simp
  | cons m ms ih => simp [ih, addMention, mentions_addVertex]

theorem mem_vertices_foldl_addMention (ms : List Mention) :
    a ∈ (ms.foldl addMention g).vertices ↔ a ∈ g.vertices ∨ ∃ m ∈ ms, m.target = a := by
  induction ms generalizing g with
  | nil => simp
  | cons m ms ih =>
    have hm : a ∈ (g.addMention m).vertices ↔ a ∈ g.vertices ∨ a = m.target := mem_vertices_addVertex
    rw [List.foldl_cons, ih, hm]
    simp [or_assoc, eq_comm]

theorem mentions_add (c : Constant) : (g.add c).mentions = g.mentions ++ c.mentions := by
  show (c.mentions.foldl addMention (g.addVertex c.name)).mentions = _
  rw [mentions_foldl_addMention, mentions_addVertex]

theorem mem_vertices_add (c : Constant) :
    a ∈ (g.add c).vertices ↔ a ∈ g.vertices ∨ c.name = a ∨ c.Mentions a := by
  show a ∈ (c.mentions.foldl addMention (g.addVertex c.name)).vertices ↔ _
  rw [mem_vertices_foldl_addMention, mem_vertices_addVertex, Constant.exists_target_mentions,
    or_assoc, eq_comm]

/-! ### A whole list -/

theorem mentions_foldl_add (cs : List Constant) :
    (cs.foldl add g).mentions = g.mentions ++ cs.flatMap Constant.mentions := by
  induction cs generalizing g with
  | nil => simp
  | cons c cs ih => simp [ih, mentions_add]

theorem mem_vertices_foldl_add (cs : List Constant) :
    a ∈ (cs.foldl add g).vertices ↔ a ∈ g.vertices ∨ ∃ c ∈ cs, c.name = a ∨ c.Mentions a := by
  induction cs generalizing g with
  | nil => simp
  | cons c cs ih =>
    rw [List.foldl_cons, ih, mem_vertices_add]
    simp [or_assoc]

theorem mentions_ofConstants (cs : List Constant) :
    (ofConstants cs).mentions = cs.flatMap Constant.mentions :=
  mentions_foldl_add cs

theorem mem_vertices_ofConstants {cs : List Constant} :
    a ∈ (ofConstants cs).vertices ↔ ∃ c ∈ cs, c.name = a ∨ c.Mentions a := by
  refine (mem_vertices_foldl_add cs).trans (or_iff_right ?_)
  exact List.not_mem_nil

theorem mem_directDeps_ofConstants {cs : List Constant} {role : Role} :
    b ∈ (ofConstants cs).directDeps role a ↔ ∃ c ∈ cs, c.name = a ∧ b ∈ c.deps role := by
  rw [mem_directDeps, mentions_ofConstants, List.mem_flatMap]
  simp only [Constant.mem_mentions, eq_comm]

theorem closed_ofConstants (cs : List Constant) : (ofConstants cs).Closed := by
  intro a b hab
  rw [mem_vertices_ofConstants]
  rcases edge_iff.1 hab with h | h
  · obtain ⟨c, hc, -, hb⟩ := mem_directDeps_ofConstants.1 h
    exact ⟨c, hc, Or.inr (Or.inl hb)⟩
  · obtain ⟨c, hc, -, hb⟩ := mem_directDeps_ofConstants.1 h
    exact ⟨c, hc, Or.inr (Or.inr hb)⟩

/-- A name that no constant of the list has mentions nothing. -/
theorem directDeps_eq_nil {cs : List Constant} {role : Role} (h : ∀ c ∈ cs, c.name ≠ a) :
    (ofConstants cs).directDeps role a = [] := by
  rw [List.eq_nil_iff_forall_not_mem]
  intro b hb
  obtain ⟨c, hc, hca, -⟩ := mem_directDeps_ofConstants.1 hb
  exact h c hc hca

end ConstantGraph

end Compendium
