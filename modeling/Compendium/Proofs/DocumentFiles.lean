import Compendium.Export
import Compendium.Proofs.Loading
import Compendium.Proofs.Placement

/-!
# The files of modules

Writing all modules of a session writes two files for each, and reports their paths in the order of
the modules (`writeAll_gives`). No two modules of a loaded session have the same name
(`Session.nodup_names`), though different names can have the same files.
-/

namespace Compendium

/-! ### Runs on a tree of files -/

theorem run_bind {α β : Type} (x : ExceptT ExportError (StateM FileTree) α)
    (f : α → ExceptT ExportError (StateM FileTree) β) (t : FileTree) :
    (x >>= f).run.run t = match x.run.run t with
      | (.ok a, t') => (f a).run.run t'
      | (.error e, t') => (.error e, t') := by
  rw [ExceptT.run_bind, StateT.run_bind]
  rcases x.run.run t with ⟨_ | _, t'⟩ <;> rfl

/-- On every tree of files, what `x` gives satisfies `P`, unless something goes wrong. -/
def Gives {α : Type} (x : ExceptT ExportError (StateM FileTree) α) (P : α → Prop) : Prop :=
  ∀ t a t', x.run.run t = (.ok a, t') → P a

namespace Gives

variable {α β : Type} {x : ExceptT ExportError (StateM FileTree) α} {P : α → Prop} {Q : β → Prop}

theorem pure {a : α} (h : P a) : Gives (pure a) P := by
  rintro t b t' hrun
  cases hrun
  exact h

theorem bind {f : α → ExceptT ExportError (StateM FileTree) β} (hx : Gives x P)
    (hf : ∀ a, P a → Gives (f a) Q) : Gives (x >>= f) Q := by
  intro t b t' hrun
  rw [run_bind] at hrun
  split at hrun
  · rename_i a t₁ hok
    exact hf a (hx t a t₁ hok) t₁ b t' hrun
  · cases hrun

/-- What comes before the last step has no part in what is given. -/
theorem skip {f : α → ExceptT ExportError (StateM FileTree) β} (hf : ∀ a, Gives (f a) Q) :
    Gives (x >>= f) Q :=
  bind (P := fun _ => True) (fun _ _ _ _ => trivial) fun a _ => hf a

theorem mapM {f : α → ExceptT ExportError (StateM FileTree) β} {g : α → β}
    (hf : ∀ a, Gives (f a) (· = g a)) (as : List α) : Gives (as.mapM f) (· = as.map g) := by
  induction as with
  | nil => exact pure rfl
  | cons a as ih =>
    rw [List.mapM_cons]
    refine (hf a).bind ?_
    rintro _ rfl
    refine ih.bind ?_
    rintro _ rfl
    exact pure rfl

end Gives

/-! ### The files that are written -/

theorem writeFile_gives (p : Path) (text : String) : Gives (writeFile p text) (· = p) := by
  unfold writeFile
  cases p.parent? with
  | none => exact .skip fun _ => .pure rfl
  | some parent => exact .skip fun _ => .skip fun _ => .pure rfl

namespace Layout

/-- The files of a module. -/
def documents (l : Layout) (module : Name) : List Path :=
  [l.pathFor .module module .latex, l.pathFor .module module .json]

variable {l : Layout} {a : Name} {p : Path}

theorem writeBoth_gives (l : Layout) (s : Session) (module : Name) :
    Gives (l.writeBoth s module) (· = l.documents module) := by
  refine .skip fun documents => (writeFile_gives _ _).bind ?_
  rintro _ rfl
  refine (writeFile_gives _ _).bind ?_
  rintro _ rfl
  exact .pure rfl

theorem writeAll_gives (l : Layout) (s : Session) :
    Gives (l.writeAll s) (· = s.store.names.flatMap l.documents) := by
  refine (Gives.mapM (l.writeBoth_gives s) s.store.names).bind ?_
  rintro _ rfl
  exact .pure (List.flatMap_def ..).symm

theorem mem_documents : p ∈ l.documents a ↔ ∃ format, p = l.pathFor .module a format := by
  simp only [documents, List.mem_cons, List.not_mem_nil, or_false]
  constructor
  · rintro (rfl | rfl)
    exacts [⟨.latex, rfl⟩, ⟨.json, rfl⟩]
  · rintro ⟨_ | _, rfl⟩
    exacts [Or.inl rfl, Or.inr rfl]

end Layout

namespace Session

theorem nodup_names {m : Manifest} {s : Session} (h : ofManifest m = .ok s) : s.store.names.Nodup := by
  obtain ⟨hproblems, hloaded⟩ := (Manifest.ofManifest_yields m).of_eq_ok h
  rw [hloaded.names]
  exact (Manifest.problems_eq_nil.mp hproblems).names

end Session

end Compendium
