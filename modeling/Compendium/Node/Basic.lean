import Compendium.Position

/-!
# Nodes

A node is a declaration that takes part in the exposition: a definition or a theorem, with its
statement and perhaps its proof.
-/

namespace Compendium

structure Part where
  /-- Whether nothing that this part depends on is left unproved. -/
  leanOk : Bool
  text : String
  uses : List Name
  environment : String
deriving DecidableEq, Repr

namespace Part

/-- A part with each of the names that it uses only once. -/
def withUses (p : Part) (names : List Name) : Part :=
  { p with uses := Name.distinct names }

def schema : Json.Schema Part where
  name := "NodePart"
  blank := ⟨false, "", [], ""⟩
  fields := [
    Json.Codec.bool.field "leanOk" .defaulted leanOk fun p leanOk => { p with leanOk },
    Json.Codec.string.field "text" .required text fun p text => { p with text },
    (Json.Codec.list Name.codec).field "uses" .defaulted uses fun p uses => { p with uses },
    Json.Codec.string.field "latexEnv" .required environment fun p environment => { p with environment }]

def codec : Json.Codec Part := schema.codec

end Part

/-- The number of a discussion thread: positive, and of 64 bits. -/
abbrev ThreadNumber := { n : Nat // 1 ≤ n ∧ n < Nat.pow 2 64 }

def ThreadNumber.codec : Json.Codec ThreadNumber where
  write n := .number n.1
  read := Json.Codec.readNat 1 (Nat.pow 2 64) "a nonzero u64"

structure Node where
  name : Name
  statement : Part
  /-- Without a proof, the statement stands for both. -/
  proof : Option Part
  notReady : Bool
  discussion : Option ThreadNumber
  title : Option String
  location : Option Location
  file : Option String
deriving DecidableEq, Repr

namespace Node

def ofStatement (name : Name) (statement : Part) : Node :=
  ⟨name, statement, none, false, none, none, none, none⟩

def parts (n : Node) : List Part :=
  n.statement :: n.proof.toList

def schema : Json.Schema Node where
  name := "Node"
  blank := .ofStatement ⟨""⟩ ⟨false, "", [], ""⟩
  fields := [
    Name.codec.field "name" .required name fun n name => { n with name },
    Part.codec.field "statement" .required statement fun n statement => { n with statement },
    (Json.Codec.optional Part.codec).field "proof" .optional proof fun n proof => { n with proof },
    Json.Codec.bool.field "notReady" .defaulted notReady fun n notReady => { n with notReady },
    (Json.Codec.optional ThreadNumber.codec).field "discussion" .optional discussion
      fun n discussion => { n with discussion },
    (Json.Codec.optional Json.Codec.string).field "title" .optional title fun n title => { n with title },
    (Json.Codec.optional Location.codec).field "location" .optional location
      fun n location => { n with location },
    (Json.Codec.optional Json.Codec.string).field "file" .optional file fun n file => { n with file }]

def codec : Json.Codec Node := schema.codec

end Node

end Compendium
