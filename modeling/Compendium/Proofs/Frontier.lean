import Mathlib.Order.Lattice.Nat
import Compendium.Proofs.Search

/-!
# The frontier, nearest names first

`collectUses` takes the names that it is to look at from the front of a list and puts the new ones at
its end. So the names ahead lie in at most two layers (`Layered`): those on paths of some length, and
behind them those on paths that are one mention longer. A name that has not been looked at is no nearer
than the first name ahead (`Layered.head_le`), and this is why the names of the frontier are found in
the order of their distance from the seeds (`distance_frontierFrom`).

The list of names ahead can grow, but each mention is added to it at most once. The search is at its
end after as many rounds as there are seeds and mentions (`rounds_collectUses`).
-/

namespace Compendium.ConstantGraph
open Relation

variable {g : ConstantGraph} {stop : Name → Bool} {seeds ahead seen deps : List Name}
  {queue : List (Name × Nat)} {a b x y name : Name} {m n : Nat}

/-! ### Paths and their lengths -/

/-- A path of `n` mentions from `a` to `b` on which no name before `b` is one of `stop`. -/
inductive OpenPath (g : ConstantGraph) (stop : Name → Bool) : Nat → Name → Name → Prop
  | refl (a : Name) : OpenPath g stop 0 a a
  | tail {n : Nat} {a b c : Name} (hab : OpenPath g stop n a b) (hbc : g.OpenEdge stop b c) :
      OpenPath g stop (n + 1) a c

/-- A path of `n` mentions leads from one of the seeds to `x`, with no name of `stop` before `x`. -/
def LeadsIn (g : ConstantGraph) (stop : Name → Bool) (seeds : List Name) (n : Nat) (x : Name) : Prop :=
  ∃ s ∈ seeds, g.OpenPath stop n s x

/-- The length of the shortest path from one of the seeds to `x` with no name of `stop` before `x`. -/
noncomputable def distance (g : ConstantGraph) (stop : Name → Bool) (seeds : List Name) (x : Name) : Nat :=
  sInf {n | g.LeadsIn stop seeds n x}

theorem openLeads_iff : g.OpenLeads stop a b ↔ ∃ n, g.OpenPath stop n a b := by
  constructor
  · intro h
    induction h with
    | refl => exact ⟨0, .refl a⟩
    | tail _ hbc ih =>
      obtain ⟨n, hn⟩ := ih
      exact ⟨n + 1, hn.tail hbc⟩
  · rintro ⟨n, h⟩
    induction h with
    | refl a => exact .refl
    | tail _ hbc ih => exact ih.tail hbc

theorem exists_openLeads_iff : (∃ s ∈ seeds, g.OpenLeads stop s x) ↔ ∃ n, g.LeadsIn stop seeds n x := by
  simp only [openLeads_iff, LeadsIn]
  constructor
  · rintro ⟨s, hs, n, h⟩
    exact ⟨n, s, hs, h⟩
  · rintro ⟨n, s, hs, h⟩
    exact ⟨s, hs, n, h⟩

theorem LeadsIn.tail (h : g.LeadsIn stop seeds n a) (hab : g.OpenEdge stop a b) :
    g.LeadsIn stop seeds (n + 1) b := by
  obtain ⟨s, hs, hsa⟩ := h
  exact ⟨s, hs, hsa.tail hab⟩

theorem distance_le (h : g.LeadsIn stop seeds n x) : g.distance stop seeds x ≤ n := Nat.sInf_le h

theorem leadsIn_distance (h : g.LeadsIn stop seeds n x) :
    g.LeadsIn stop seeds (g.distance stop seeds x) x :=
  Nat.sInf_mem (s := {n | g.LeadsIn stop seeds n x}) ⟨n, h⟩

/-! ### Layers -/

/-- What holds of the names ahead, each with the length of a path that leads to it, and of those that
the search has looked at. -/
structure Layered (g : ConstantGraph) (stop : Name → Bool) (seeds : List Name) (queue : List (Name × Nat))
    (seen : List Name) : Prop where
  leads : ∀ p ∈ queue, g.LeadsIn stop seeds p.2 p.1
  /-- Longer paths come later, and no path is longer than another one by more than one mention. -/
  layers : queue.Pairwise fun p q => p.2 ≤ q.2 ∧ q.2 ≤ p.2 + 1
  start : ∀ s ∈ seeds, s ∈ seen ∨ (s, 0) ∈ queue
  /-- The search goes on behind each name that it has looked at, by no detour. -/
  follow : ∀ a ∈ seen, ∀ m, g.LeadsIn stop seeds m a → ∀ b, g.OpenEdge stop a b →
    b ∈ seen ∨ ∃ k ≤ m + 1, (b, k) ∈ queue

namespace Layered

theorem init (g : ConstantGraph) (stop : Name → Bool) (seeds : List Name) :
    Layered g stop seeds (seeds.map fun s => (s, 0)) [] where
  leads := by
    simp only [List.mem_map]
    rintro _ ⟨s, hs, rfl⟩
    exact ⟨s, hs, .refl s⟩
  layers := by simp [List.pairwise_map, List.pairwise_of_forall]
  start := fun s hs => Or.inr (List.mem_map_of_mem hs)
  follow := fun a ha => absurd ha List.not_mem_nil

/-- A path to a name that has not been looked at is no shorter than that to some name ahead, since it
leaves the names that have been looked at through one of these. -/
theorem exists_le (h : Layered g stop seeds queue seen) (hx : g.LeadsIn stop seeds m x) (hseen : x ∉ seen) :
    ∃ p ∈ queue, p.2 ≤ m := by
  obtain ⟨s, hs, hsx⟩ := hx
  induction hsx with
  | refl s => exact ⟨_, (h.start s hs).resolve_left hseen, Nat.le_refl 0⟩
  | @tail n s b c hsb hbc ih =>
    by_cases hb : b ∈ seen
    · obtain ⟨k, hk, hc⟩ := (h.follow b hb n ⟨s, hs, hsb⟩ c hbc).resolve_left hseen
      exact ⟨_, hc, hk⟩
    · obtain ⟨p, hp, hle⟩ := ih hb hs
      exact ⟨p, hp, Nat.le_succ_of_le hle⟩

theorem head_le (h : Layered g stop seeds ((name, n) :: queue) seen) (hx : g.LeadsIn stop seeds m x)
    (hseen : x ∉ seen) : n ≤ m := by
  obtain ⟨p, hp, hle⟩ := h.exists_le hx hseen
  rcases List.mem_cons.mp hp with rfl | hp
  · exact hle
  · exact (List.rel_of_pairwise_cons h.layers hp).1.trans hle

theorem skip (h : Layered g stop seeds ((name, n) :: queue) seen) (hname : name ∈ seen) :
    Layered g stop seeds queue seen where
  leads := fun p hp => h.leads p (List.mem_cons_of_mem _ hp)
  layers := h.layers.of_cons
  start := by
    intro s hs
    rcases h.start s hs with hseen | hqueue
    · exact Or.inl hseen
    · rcases List.mem_cons.mp hqueue with heq | hqueue
      · cases heq
        exact Or.inl hname
      · exact Or.inr hqueue
  follow := by
    intro a ha m hm b hab
    rcases h.follow a ha m hm b hab with hseen | ⟨k, hk, hqueue⟩
    · exact Or.inl hseen
    · rcases List.mem_cons.mp hqueue with heq | hqueue
      · cases heq
        exact Or.inl hname
      · exact Or.inr ⟨k, hk, hqueue⟩

theorem visit (h : Layered g stop seeds ((name, n) :: queue) seen) (hname : name ∉ seen)
    (hdeps : ∀ b, b ∈ deps ↔ g.OpenEdge stop name b) :
    Layered g stop seeds (queue ++ deps.map fun b => (b, n + 1)) (name :: seen) where
  leads := by
    intro p hp
    rcases List.mem_append.mp hp with hp | hp
    · exact h.leads p (List.mem_cons_of_mem _ hp)
    · obtain ⟨b, hb, rfl⟩ := List.mem_map.mp hp
      exact (h.leads (name, n) (List.mem_cons_self ..)).tail ((hdeps b).1 hb)
  layers := by
    refine List.pairwise_append.mpr ⟨h.layers.of_cons, ?_, ?_⟩
    · simp [List.pairwise_map, List.pairwise_of_forall]
    · intro p hp q hq
      obtain ⟨b, -, rfl⟩ := List.mem_map.mp hq
      obtain ⟨hle, hle'⟩ := List.rel_of_pairwise_cons h.layers hp
      exact ⟨hle', Nat.succ_le_succ hle⟩
  start := by
    intro s hs
    rcases h.start s hs with hseen | hqueue
    · exact Or.inl (List.mem_cons_of_mem _ hseen)
    · rcases List.mem_cons.mp hqueue with heq | hqueue
      · cases heq
        exact Or.inl (List.mem_cons_self ..)
      · exact Or.inr (List.mem_append_left _ hqueue)
  follow := by
    intro a ha m hm b hab
    rcases List.mem_cons.mp ha with rfl | ha
    · have hb : (b, n + 1) ∈ deps.map fun b => (b, n + 1) := List.mem_map_of_mem ((hdeps b).2 hab)
      exact Or.inr ⟨n + 1, Nat.succ_le_succ (h.head_le hm hname), List.mem_append_right _ hb⟩
    · rcases h.follow a ha m hm b hab with hseen | ⟨k, hk, hqueue⟩
      · exact Or.inl (List.mem_cons_of_mem _ hseen)
      · rcases List.mem_cons.mp hqueue with heq | hqueue
        · cases heq
          exact Or.inl (List.mem_cons_self ..)
        · exact Or.inr ⟨k, hk, List.mem_append_left _ hqueue⟩

end Layered

/-! ### The order of the names that are found -/

/-- There is a path to `x` that is no longer than any path to `y`. -/
def NoFarther (g : ConstantGraph) (stop : Name → Bool) (seeds : List Name) (x y : Name) : Prop :=
  ∀ m, g.LeadsIn stop seeds m y → ∃ k ≤ m, g.LeadsIn stop seeds k x

theorem NoFarther.distance_le (h : g.NoFarther stop seeds x y) (hy : g.LeadsIn stop seeds n y) :
    g.distance stop seeds x ≤ g.distance stop seeds y := by
  obtain ⟨k, hk, hx⟩ := h _ (leadsIn_distance hy)
  exact (ConstantGraph.distance_le hx).trans hk

theorem nodup_frontierFrom : (g.frontierFrom stop ahead seen).Nodup := by
  fun_induction g.frontierFrom stop ahead seen with
  | case1 seen => exact List.nodup_nil
  | case2 seen name ahead _ ih => exact ih
  | case3 seen name ahead _ _ ih =>
    refine List.nodup_cons.mpr ⟨fun hmem => ?_, ih⟩
    exact (frontierFrom_sound hmem).1 (List.mem_cons_self ..)
  | case4 seen name ahead _ _ ih => exact ih

theorem pairwise_frontierFrom (h : Layered g stop seeds queue seen) :
    (g.frontierFrom stop (queue.map Prod.fst) seen).Pairwise (g.NoFarther stop seeds) := by
  generalize hahead : queue.map Prod.fst = ahead
  fun_induction g.frontierFrom stop ahead seen generalizing queue with
  | case1 seen => exact .nil
  | case2 seen name ahead hs ih =>
    obtain ⟨⟨_, n⟩, queue, rfl, rfl, rfl⟩ := List.map_eq_cons_iff.mp hahead
    exact ih (h.skip (by simpa using hs)) rfl
  | case3 seen name ahead hs hstop ih =>
    obtain ⟨⟨_, n⟩, queue, rfl, rfl, rfl⟩ := List.map_eq_cons_iff.mp hahead
    refine List.pairwise_cons.mpr ⟨fun y hy m hm => ?_, ?_⟩
    · have hseen := (frontierFrom_sound hy).1
      exact ⟨n, h.head_le hm fun hmem => hseen (List.mem_cons_of_mem _ hmem), h.leads _ (List.mem_cons_self ..)⟩
    · -- the search does not go on from a name of `stop`
      have hdeps : ∀ b, b ∈ [] ↔ g.OpenEdge stop _ b := fun b =>
        iff_of_false List.not_mem_nil fun hb => Bool.false_ne_true (hb.1.symm.trans hstop)
      exact ih (h.visit (by simpa using hs) hdeps) (by simp)
  | case4 seen name ahead hs hopen ih =>
    obtain ⟨⟨_, n⟩, queue, rfl, rfl, rfl⟩ := List.map_eq_cons_iff.mp hahead
    have hdeps : ∀ b, b ∈ g.allDeps _ ↔ g.OpenEdge stop _ b := fun b =>
      ⟨fun hb => ⟨by simpa using hopen, hb⟩, fun hb => hb.2⟩
    exact ih (h.visit (by simpa using hs) hdeps) (by simp [Function.comp_def])

theorem distance_frontierFrom :
    (g.frontierFrom stop seeds []).Pairwise fun x y => g.distance stop seeds x ≤ g.distance stop seeds y := by
  have hpairwise := pairwise_frontierFrom (.init g stop seeds)
  rw [List.map_map, List.map_id'' (f := Prod.fst ∘ fun s => (s, 0)) fun _ => rfl] at hpairwise
  refine hpairwise.imp_of_mem fun {x y} _ hy hxy => ?_
  obtain ⟨n, hn⟩ := exists_openLeads_iff.1 (frontierFrom_sound hy).2.2
  exact hxy.distance_le hn

/-! ### Rounds -/

/-- What a search is at: the names that are still to come, those that it has looked at, and those that
it has found. -/
structure SearchState where
  ahead : List Name
  seen : List Name
  found : List Name

def round (g : ConstantGraph) (stop : Name → Bool) (s : SearchState) : SearchState :=
  match s.ahead with
  | [] => s
  | name :: ahead =>
    if s.seen.contains name then { s with ahead }
    else if stop name then ⟨ahead, name :: s.seen, s.found ++ [name]⟩
    else ⟨ahead ++ g.allDeps name, name :: s.seen, s.found⟩

/-- The search comes to its end, within as many rounds as there are names ahead and mentions by names
that it has not looked at. -/
theorem rounds_frontierFrom (g : ConstantGraph) (stop : Name → Bool) (ahead seen found : List Name) :
    ∃ n ≤ g.unseen seen + ahead.length, ∃ seen',
      (g.round stop)^[n] ⟨ahead, seen, found⟩ = ⟨[], seen', found ++ g.frontierFrom stop ahead seen⟩ := by
  fun_induction g.frontierFrom stop ahead seen generalizing found with
  | case1 seen => exact ⟨0, Nat.zero_le _, seen, by simp⟩
  | case2 seen name ahead hs ih =>
    obtain ⟨n, hn, seen', hrounds⟩ := ih found
    refine ⟨n + 1, by simp only [List.length_cons]; omega, seen', ?_⟩
    rw [Function.iterate_succ_apply, ← hrounds]
    simp only [round, hs, if_true]
  | case3 seen name ahead hs hstop ih =>
    obtain ⟨n, hn, seen', hrounds⟩ := ih (found ++ [name])
    have hle : g.unseen (name :: seen) ≤ g.unseen seen := g.unseen_cons_le (by simpa using hs)
    refine ⟨n + 1, by simp only [List.length_cons]; omega, seen', ?_⟩
    rw [Function.iterate_succ_apply, List.append_cons, ← hrounds]
    simp only [round, hs, hstop, if_true]
    rfl
  | case4 seen name ahead hs hopen ih =>
    obtain ⟨n, hn, seen', hrounds⟩ := ih found
    have hle : g.unseen (name :: seen) + (g.allDeps name).length = g.unseen seen :=
      g.unseen_cons_add (by simpa using hs)
    rw [List.length_append] at hn
    refine ⟨n + 1, by simp only [List.length_cons]; omega, seen', ?_⟩
    rw [Function.iterate_succ_apply, ← hrounds]
    simp only [round, hs, hopen]
    rfl

theorem unseen_nil (g : ConstantGraph) : g.unseen [] = g.mentions.length := by
  simp [unseen]

theorem rounds_collectUses (g : ConstantGraph) (seeds : List Name) (isNode : Name → Bool) (marker : Name) :
    ∃ n ≤ seeds.length + g.mentions.length, ∃ seen,
      (g.round (stopsAt isNode marker))^[n] ⟨seeds, [], []⟩ = ⟨[], seen, g.collectUses seeds isNode marker⟩ := by
  obtain ⟨n, hn, seen, hrounds⟩ := rounds_frontierFrom g (stopsAt isNode marker) seeds [] []
  rw [unseen_nil] at hn
  exact ⟨n, by omega, seen, hrounds⟩

/-- In any graph, from any seeds, the search for uses comes to its end. It finds each name once, and
exactly those names that are nodes or the marker and that a path from a seed leads to, on which no
name before the last one is a node or the marker. Names with shorter paths are found first. -/
theorem collectUses_is_frontier (g : ConstantGraph) (seeds : List Name) (isNode : Name → Bool)
    (marker : Name) :
    (∃ n ≤ seeds.length + g.mentions.length, ∃ seen,
      (g.round (stopsAt isNode marker))^[n] ⟨seeds, [], []⟩ = ⟨[], seen, g.collectUses seeds isNode marker⟩) ∧
    (g.collectUses seeds isNode marker).Nodup ∧
    (∀ x, x ∈ g.collectUses seeds isNode marker ↔
      (x = marker ∨ isNode x = true) ∧ ∃ n, g.LeadsIn (stopsAt isNode marker) seeds n x) ∧
    (g.collectUses seeds isNode marker).Pairwise fun x y =>
      g.distance (stopsAt isNode marker) seeds x ≤ g.distance (stopsAt isNode marker) seeds y := by
  refine ⟨rounds_collectUses g seeds isNode marker, nodup_frontierFrom, fun x => ?_, distance_frontierFrom⟩
  rw [mem_collectUses, exists_openLeads_iff]

end Compendium.ConstantGraph
