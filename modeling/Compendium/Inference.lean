import Compendium.Constant
import Compendium.Draft
import Compendium.Node.Registry

/-!
# From drafts to nodes

What a part of a node depends on is read off the graph of constants: the statement goes with the
type of the constant, the proof with its value. Of the constants on the way, the first ones that are
nodes count, and the marker of unproved constants, which also decides whether the part is proved.
-/

namespace Compendium

structure Inference where
  constants : ConstantGraph
  registry : Registry
  marker : Name

namespace Inference

def theoremEnvironment : String := "theorem"

def definitionEnvironment : String := "definition"

def proofEnvironment : String := "proof"

/-- The nodes that one role of a constant depends on, and the marker if that is among them. A
constant is no dependency of its own. -/
def uses (i : Inference) (name : Name) (role : Role) : List Name :=
  i.constants.collectUses (i.constants.directDeps role name)
    (fun used => used ≠ name && i.registry.contains used) i.marker

/-- Whether a constant is known and one role of it does not depend on the marker. -/
def isProved (i : Inference) (name : Name) (role : Role) : Bool :=
  i.constants.contains name && !i.constants.reaches (i.constants.directDeps role name) i.marker

def finishPart (d : PartDraft) (uses : List Name) (isProved : Bool) (environment : String) : Part where
  leanOk := d.leanOk.getD isProved
  text := d.text
  uses := uses
  environment := d.environment.getD environment

/-- The names that a proof uses, of which those that its statement uses already are left out. The
marker counts for both. -/
def proofUses (i : Inference) (statementUses : List Name) (names : List Name) : List Name :=
  (Name.distinct names).filter fun used => used = i.marker || !statementUses.contains used

/-- The statement and the proof of a draft. What the author declares comes before what is inferred.
-/
def finishParts (i : Inference) (d : Draft) : Part × Option Part :=
  let fromType := i.uses d.name .type
  let fromValue := i.uses d.name .value
  match d.proof with
  | some proof =>
    let statementUses := Name.distinct (d.statement.uses ++ fromType)
    (finishPart d.statement statementUses (i.isProved d.name .type) theoremEnvironment,
      some (finishPart proof (i.proofUses statementUses (proof.uses ++ fromValue)) (i.isProved d.name .value)
        proofEnvironment))
  | none =>
    (finishPart d.statement (Name.distinct (d.statement.uses ++ fromType ++ fromValue))
      (i.isProved d.name .type && i.isProved d.name .value) definitionEnvironment, none)

def finish (i : Inference) (d : Draft) : Node :=
  let (statement, proof) := i.finishParts d
  ⟨d.name, statement, proof, d.notReady, d.discussion, d.title, d.location, d.file⟩

end Inference

end Compendium
