import Compendium.Node.Basic

/-!
# Drafts

A draft is a node as its author gives it. What it depends on and whether that is proved is still to
be found out, except where the author says so.
-/

namespace Compendium

structure PartDraft where
  text : String
  uses : List Name
  /-- The LaTeX environment, unless it is the usual one. -/
  environment : Option String
  /-- The author's word on whether everything is proved, which then holds. -/
  leanOk : Option Bool
deriving DecidableEq, Repr

namespace PartDraft

def empty : PartDraft := ⟨"", [], none, none⟩

def schema : Json.Schema PartDraft where
  name := "PartDraft"
  blank := empty
  fields := [
    Json.Codec.string.field "text" .defaulted text fun d text => { d with text },
    (Json.Codec.list Name.codec).field "uses" .defaulted uses fun d uses => { d with uses },
    (Json.Codec.optional Json.Codec.string).field "latexEnv" .defaulted environment
      fun d environment => { d with environment },
    (Json.Codec.optional Json.Codec.bool).field "leanOk" .defaulted leanOk fun d leanOk => { d with leanOk }]

def codec : Json.Codec PartDraft := schema.codec

end PartDraft

structure Draft where
  name : Name
  statement : PartDraft
  /-- Without a proof, the statement stands for both. -/
  proof : Option PartDraft
  notReady : Bool
  discussion : Option ThreadNumber
  title : Option String
  location : Option Location
  file : Option String
deriving DecidableEq, Repr

namespace Draft

def schema : Json.Schema Draft where
  name := "NodeDraft"
  blank := ⟨⟨""⟩, .empty, none, false, none, none, none, none⟩
  fields := [
    Name.codec.field "name" .required name fun d name => { d with name },
    PartDraft.codec.field "statement" .defaulted statement fun d statement => { d with statement },
    (Json.Codec.optional PartDraft.codec).field "proof" .defaulted proof fun d proof => { d with proof },
    Json.Codec.bool.field "notReady" .defaulted notReady fun d notReady => { d with notReady },
    (Json.Codec.optional ThreadNumber.codec).field "discussion" .defaulted discussion
      fun d discussion => { d with discussion },
    (Json.Codec.optional Json.Codec.string).field "title" .defaulted title fun d title => { d with title },
    (Json.Codec.optional Location.codec).field "location" .defaulted location
      fun d location => { d with location },
    (Json.Codec.optional Json.Codec.string).field "file" .defaulted file fun d file => { d with file }]

def codec : Json.Codec Draft := schema.codec

end Draft

end Compendium
